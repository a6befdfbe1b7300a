import Gain.Server.Steps

/-! # Shutdowns at the same time

Any number of `Shutdown` and `AsyncShutdown` calls race for the one close goroutine
of a run, and in a main process so does a signal of the system. The state is loaded in
one step and stored in another, so two calls may both find the engine running; and a
signal of the system does not change the state before the run is closed.
-/

namespace Gain

open List

namespace Engine

variable {cfg : Config} {e e' : Engine} {i j : Nat} {s s' : StartCall} {c c' d : Call}
  {g g' : CloserAt} {phase : Phase} {closed : List Nat} {p : StartAt} {e₁ : Engine} {l : Label}

/-- The call has come to send its signal. -/
def CallAt.signals : CallAt → Bool
  | .sending | .awaiting | .returned => true
  | .load | .store | .skipped => false

/-- Waiting for the other side of a channel. -/
def CallAt.blocked : CallAt → Bool
  | .sending | .awaiting => true
  | _ => false

/-- Neither a caller nor a close goroutine can take a step. -/
structure Quiescent (cfg : Config) (e : Engine) : Prop where
  caller : ∀ i, step cfg e (.caller i) = none
  signal : ∀ i j, step cfg e (.signal i j) = none
  closer : ∀ j, step cfg e (.closer j) = none
  back : ∀ j i, step cfg e (.back j i) = none

/-- At most one call sends a signal, none does when that of the system was received, and when
nothing can move nobody waits. -/
structure Answered (cfg : Config) (e : Engine) : Prop where
  once : ∀ (i j : Nat) (c d : Call), e.calls[i]? = some c → e.calls[j]? = some d →
    c.place.signals = true → d.place.signals = true → i = j
  system : .finished ∈ e.notifiers → ∀ c ∈ e.calls, c.place.signals = false
  free : Quiescent cfg e → ∀ c ∈ e.calls, c.place.blocked = false

/-- There is one run only. -/
def OneRun (e : Engine) : Label → Prop
  | .callStart _ _ => e.starts = []
  | _ => True

/-- A call loads `running` only when no other call is between its load and its store and the
close goroutine still waits for a signal. It receives a signal of the system only when no call
is between its load and the receipt of its own signal. -/
def Ungapped (e : Engine) : Label → Prop
  | .caller i => ∀ c, e.calls[i]? = some c → c.place = .load → e.state = .running →
      (∀ d ∈ e.calls, d.place ≠ .store) ∧ ∀ g ∈ e.closers, g = .receiving
  | .systemSignal _ _ => ∀ c ∈ e.calls, c.place ≠ .store ∧ c.place ≠ .sending
  | _ => True

/-- The call has not found the engine running. -/
def Call.idle (c : Call) : Prop := c.place = .load ∨ c.place = .skipped

/-- The close goroutine was not signalled by the system. -/
def CloserAt.user : CloserAt → Bool
  | .received .system | .closing .system _ | .storing .system | .handingBack .system | .exiting =>
    false
  | _ => true

/-- Where the call that found the engine running and the close goroutine can be. -/
inductive Meeting : CallAt → CloserAt → Prop
  | store : Meeting .store .receiving
  | sending : Meeting .sending .receiving
  | awaiting {g : CloserAt} (busy : g ≠ .receiving ∧ g ≠ .finished) : Meeting .awaiting g
  | returned {g : CloserAt} (busy : g ≠ .receiving) : Meeting .returned g

/-- No call has found the engine running yet. -/
structure Untouched (e : Engine) : Prop where
  calls : ∀ c ∈ e.calls, c.idle
  empty : e.starts = [] → e.closers = [] ∧ e.state ≠ .running
  unspawned : ∀ s ∈ e.starts, s.place.unspawned = true → e.closers = [] ∧ e.state ≠ .running
  spawned : ∀ s ∈ e.starts, s.place.unspawned = false → s.place.over = false →
    e.closers = [.receiving]
  left : ∀ g ∈ e.closers, g = .receiving
  launched : ∀ s ∈ e.starts, s.place = .launch ∨ s.place = .running → e.closer.isSome = true
  running : e.state = .running → e.closers = [.receiving] ∧ e.closer.isSome = true ∧
    ∀ s ∈ e.starts, s.place.midway = false

/-- One call has found the engine running. -/
structure Taken (e : Engine) (i : Nat) (c : Call) (g : CloserAt) : Prop where
  found : e.calls[i]? = some c
  others : ∀ (j : Nat) (d : Call), e.calls[j]? = some d → j ≠ i → d.idle
  only : e.closers = [g]
  user : g.user = true
  meeting : Meeting c.place g
  closer : e.closer.isSome = true
  begun : e.starts ≠ []
  started : ∀ s ∈ e.starts, s.place.midway = false ∧ s.place.unspawned = false
  running : e.state = .running → c.place = .store

/-- The close goroutine has received a signal of the system, and no call has found the engine
running. -/
structure Signalled (e : Engine) : Prop where
  calls : ∀ c ∈ e.calls, c.idle
  busy : ∃ g ∈ e.closers, g ≠ .receiving

/-- One run, as long as no signal of the system was received. -/
structure Single (e : Engine) : Prop where
  alive : e.exited = false
  unsignalled : .finished ∉ e.notifiers
  once : e.starts.length ≤ 1
  stage : Untouched e ∨ ∃ i c g, Taken e i c g

/-- The only start there is. -/
theorem Single.only (single : Single e) (found : e.starts[i]? = some s) :
    i = 0 ∧ e.starts = [s] := by
  have once := single.once
  cases starts : e.starts with
  | nil =>
    rw [starts] at found
    cases found
  | cons first rest =>
    rw [starts, length_cons] at once
    have none' : rest = [] := length_eq_zero_iff.mp (by omega)
    subst none'
    rw [starts] at found
    have zero : i = 0 := by
      have lt := (List.getElem?_eq_some_iff.mp found).1
      simpa using lt
    subst zero
    cases found
    exact ⟨rfl, rfl⟩

theorem Taken.index {h : CloserAt} (taken : Taken e i c g) (found : e.closers[j]? = some h) :
    j = 0 ∧ h = g := by
  rw [taken.only] at found
  have lt := (List.getElem?_eq_some_iff.mp found).1
  have zero : j = 0 := by simpa using lt
  subst zero
  cases found
  exact ⟨rfl, rfl⟩

theorem Taken.same {k : Nat} (taken : Taken e k d g) (found : e.calls[i]? = some c)
    (busy : ¬ c.idle) : i = k ∧ c = d := by
  have here : i = k := by
    by_contra ne
    exact busy (taken.others i c found ne)
  subst here
  cases found.symm.trans taken.found
  exact ⟨rfl, rfl⟩

/-- The call that found the engine running and the close goroutine move on. -/
theorem Taken.moves (taken : Taken e i c g) (user : g'.user = true) (meeting : Meeting c'.place g')
    (running : phase = .running → c'.place = .store) :
    Taken { e with state := phase, closed := closed, closers := [g'], calls := e.calls.set i c' }
      i c' g' where
  __ := taken
  found := List.getElem?_set_self (List.getElem?_eq_some_iff.mp taken.found).1
  others j d inside ne := by
    rw [List.getElem?_set_ne ne.symm] at inside
    exact taken.others j d inside ne
  only := rfl
  user := user
  meeting := meeting
  running := running

/-- A call that does not find the engine running. -/
theorem Taken.skips (taken : Taken e i c g) (ne : j ≠ i) (idle : d.idle) :
    Taken { e with calls := e.calls.set j d } i c g where
  __ := taken
  found := by
    rw [List.getElem?_set_ne ne]
    exact taken.found
  others k x inside other := by
    rw [List.getElem?_set] at inside
    split_ifs at inside with same
    · cases inside
      exact idle
    · exact taken.others k x inside other

theorem StartAt.over_of_midway (mid : p.midway = true) : p.over = false := by
  cases p <;> first | rfl | cases mid

theorem StartAt.not_unspawned_of_over (ceased : p.over = true) : p.unspawned = false := by
  cases p <;> first | rfl | cases ceased

/-- The start moves on before any call has found the engine running. -/
theorem Untouched.advanced (untouched : Untouched e) (starts : e.starts = [s])
    (advanced : Advanced e s e₁ s') : Untouched { e₁ with starts := [s'] } := by
  obtain ⟨calls, _, unspawned, spawned, left, launched, running⟩ := untouched
  have mine : s ∈ e.starts := by
    rw [starts]
    exact mem_singleton_self s
  have one : ∀ {property : StartCall → Prop}, property s' → ∀ x ∈ [s'], property x := by
    intro property holds x member
    rw [mem_singleton.mp member]
    exact holds
  cases advanced with
  | outside before after order =>
    refine ⟨calls, nofun, one fun early => ?_, one fun late unreturned => ?_, left,
      one fun late => ?_, fun state => ⟨(running state).1, (running state).2.1, one after⟩⟩
    · rcases order with ceased | ⟨_, before⟩
      · rw [StartAt.not_unspawned_of_over ceased] at early
        cases early
      · exact unspawned s mine before
    · dsimp only at late unreturned
      rcases order with ceased | ⟨now, _⟩
      · rw [ceased] at unreturned
        cases unreturned
      · rw [now] at late
        cases late
    · dsimp only at late
      rcases late with late | late <;> rw [late] at after <;> cases after
  | begins place =>
    have none' := (unspawned s mine (by rw [place]; rfl)).1
    exact ⟨calls, nofun, one fun _ => ⟨none', nofun⟩, one nofun, left,
      one (by rintro (late | late) <;> cases late), nofun⟩
  | works before late spawn notified =>
    have stopped : e.state ≠ .running := by
      intro state
      rw [(running state).2.2 s mine] at before
      cases before
    have unreturned := StartAt.over_of_midway before
    have chosen : s.place = .launch → e.closer.isSome = true :=
      fun place => launched s mine (Or.inl place)
    rcases spawn with ⟨rfl, order⟩ | ⟨place, rfl, rfl⟩
    · refine ⟨calls, nofun, one fun early => ?_, one fun spawned' open' => ?_, left,
        one fun place => chosen (late place), fun state => absurd state stopped⟩
      · rcases order with ceased | same
        · rw [StartAt.not_unspawned_of_over ceased] at early
          cases early
        · exact unspawned s mine (same.symm.trans early)
      · rcases order with ceased | same
        · exact absurd ceased (by rw [open']; decide)
        · exact spawned s mine (same.symm.trans spawned') unreturned
    · have none' := (unspawned s mine (by rw [place]; rfl)).1
      rw [none', nil_append]
      refine ⟨calls, nofun, one nofun, one fun _ _ => rfl, by simp,
        one (by rintro (late | late) <;> cases late), fun state => absurd state stopped⟩
  | closer place =>
    have receiving := spawned s mine (by rw [place]; rfl) (by rw [place]; rfl)
    have stopped : e.state ≠ .running := by
      intro state
      have mid := (running state).2.2 s mine
      rw [place] at mid
      cases mid
    exact ⟨calls, nofun, one nofun, one fun _ _ => receiving, left, one fun _ => rfl,
      fun state => absurd state stopped⟩
  | running place =>
    have receiving := spawned s mine (by rw [place]; rfl) (by rw [place]; rfl)
    have chosen := launched s mine (Or.inr place)
    exact ⟨calls, nofun, one nofun, one fun _ _ => receiving, left,
      one (by rintro (late | late) <;> cases late), fun _ => ⟨receiving, chosen, one rfl⟩⟩

theorem Untouched.caller (untouched : Untouched e) (idle : c.idle) :
    Untouched { e with calls := e.calls.set i c } where
  __ := untouched
  calls d member := by
    rcases mem_or_eq_of_mem_set member with old | rfl
    · exact untouched.calls d old
    · exact idle

/-- A call finds the engine running. -/
theorem Untouched.taken (untouched : Untouched e) (found : e.calls[i]? = some c)
    (state : e.state = .running) (place : c'.place = .store) :
    Taken { e with calls := e.calls.set i c' } i c' .receiving := by
  obtain ⟨receiving, closer, started⟩ := untouched.running state
  refine ⟨List.getElem?_set_self (List.getElem?_eq_some_iff.mp found).1, ?_, receiving, rfl, ?_,
    closer, ?_, ?_, fun _ => place⟩
  · intro j d inside ne
    rw [List.getElem?_set_ne ne.symm] at inside
    exact untouched.calls d (mem_of_getElem? inside)
  · rw [place]
    exact .store
  · intro none'
    exact (untouched.empty none').2 state
  · intro s member
    refine ⟨started s member, ?_⟩
    by_contra early
    exact (untouched.unspawned s member (by simpa using early)).2 state

theorem CloserAt.user_received {signal : CloseSignal} (user : g.user = true)
    (same : g = .received signal ∨ g = .storing signal ∨ g = .handingBack signal ∨
      ∃ run, g = .closing signal run) : signal = .user := by
  cases signal with
  | user => rfl
  | system =>
    rcases same with rfl | rfl | rfl | ⟨_, rfl⟩ <;> cases user

/-- The close goroutine moves on by itself. -/
theorem Taken.closerMoves (taken : Taken e i c g) (busy : g ≠ .receiving) (user : g'.user = true)
    (busy' : g' ≠ .receiving ∧ g' ≠ .finished) (running : phase = .running → e.state = .running) :
    Taken { e with state := phase, closed := closed, closers := [g'] } i c g' := by
  have meeting : Meeting c.place g' := by
    cases place : c.place with
    | load | skipped =>
      have meeting := taken.meeting
      rw [place] at meeting
      cases meeting
    | store | sending =>
      have meeting := taken.meeting
      rw [place] at meeting
      cases meeting
      exact absurd rfl busy
    | awaiting => exact .awaiting busy'
    | returned => exact .returned busy'.1
  have moved : Taken { e with
      state := phase, closed := closed, closers := [g'], calls := e.calls.set i c } i c g' :=
    taken.moves user meeting fun state => taken.running (running state)
  have same : e.calls.set i c = e.calls := by
    obtain ⟨lt, here⟩ := List.getElem?_eq_some_iff.mp taken.found
    rw [← here, set_getElem_self]
  rw [same] at moved
  exact moved

namespace Single

variable (single : Single e)
include single

/-- The call that has found the engine running. -/
theorem busy (found : e.calls[i]? = some c) (busy : ¬ c.idle) : ∃ g, Taken e i c g := by
  rcases single.stage with untouched | ⟨k, d, g, taken⟩
  · exact absurd (untouched.calls c (mem_of_getElem? found)) busy
  · obtain ⟨rfl, rfl⟩ := taken.same found busy
    exact ⟨g, taken⟩

/-- The close goroutine that has received a signal. -/
theorem signalled (found : e.closers[j]? = some g) (other : g ≠ .receiving) :
    j = 0 ∧ ∃ i c, Taken e i c g := by
  rcases single.stage with untouched | ⟨k, d, h, taken⟩
  · exact absurd (untouched.left g (mem_of_getElem? found)) other
  · obtain ⟨rfl, rfl⟩ := taken.index found
    exact ⟨rfl, k, d, taken⟩

/-- The first start is called. -/
theorem callStart (none' : e.starts = []) (mainProcess : Bool) (address : Text) : Single { e with
      starts := e.starts ++ [{ mainProcess := mainProcess, address := address }] } := by
  refine ⟨single.alive, single.unsignalled, by simp [none'], Or.inl ?_⟩
  rcases single.stage with untouched | ⟨i, c, g, taken⟩
  · obtain ⟨closers, state⟩ := untouched.empty none'
    simp only [none', nil_append]
    refine ⟨untouched.calls, nofun, ?_, ?_, untouched.left, ?_, fun same => absurd same state⟩
    · intro s _ _
      exact ⟨closers, state⟩
    · intro s member late
      rw [mem_singleton.mp member] at late
      cases late
    · intro s member late
      rw [mem_singleton.mp member] at late
      rcases late with late | late <;> cases late
  · exact absurd none' taken.begun

/-- A shutdown is called. -/
theorem call (kind : CallKind) : Single { e with calls := e.calls ++ [{ kind := kind }] } := by
  refine ⟨single.alive, single.unsignalled, single.once, ?_⟩
  rcases single.stage with untouched | ⟨i, c, g, taken⟩
  · refine Or.inl { untouched with calls := fun d member => ?_ }
    rcases mem_append.mp member with old | new
    · exact untouched.calls d old
    · rw [mem_singleton.mp new]
      exact Or.inl rfl
  · have lt := (List.getElem?_eq_some_iff.mp taken.found).1
    refine Or.inr ⟨i, c, g, { taken with found := ?_, others := fun j d inside ne => ?_ }⟩
    · rw [List.getElem?_append_left lt]
      exact taken.found
    · rcases Nat.lt_or_ge j e.calls.length with old | new
      · rw [List.getElem?_append_left old] at inside
        exact taken.others j d inside ne
      · rw [List.getElem?_append_right new] at inside
        rw [mem_singleton.mp (mem_of_getElem? inside)]
        exact Or.inl rfl

/-- The only start advances. -/
theorem start (found : e.starts[i]? = some s) (advanced : Advanced e s e₁ s') :
    Single { e₁ with starts := e.starts.set i s' } := by
  obtain ⟨rfl, starts⟩ := single.only found
  have inside : s ∈ e.starts := mem_of_getElem? found
  rw [starts, set_cons_zero]
  have frame : e₁.exited = e.exited ∧ (.finished ∈ e₁.notifiers → .finished ∈ e.notifiers) := by
    cases advanced with
    | works _ _ _ notified =>
      refine ⟨rfl, fun member => ?_⟩
      rcases notified with rfl | ⟨_, rfl⟩
      · exact member
      · exact (mem_append.mp member).resolve_right (by simp)
    | outside _ _ _ | begins _ | closer _ | running _ => exact ⟨rfl, id⟩
  refine ⟨frame.1.trans single.alive, fun member => single.unsignalled (frame.2 member),
    Nat.le_refl 1, ?_⟩
  · rcases single.stage with untouched | ⟨j, c, g, taken⟩
    · exact Or.inl (untouched.advanced starts advanced)
    · -- The start is serving, so it can only return.
      obtain ⟨mid, spawned⟩ := taken.started s inside
      cases advanced with
      | outside before after order =>
        have ceased := order.resolve_right fun early => by
          rw [early.2] at spawned
          cases spawned
        refine Or.inr ⟨j, c, g, { taken with begun := nofun, started := fun x member => ?_ }⟩
        rw [mem_singleton.mp member]
        exact ⟨after, StartAt.not_unspawned_of_over ceased⟩
      | begins place =>
        rw [place] at spawned
        cases spawned
      | works before _ _ _ =>
        rw [mid] at before
        cases before
      | closer place | running place =>
        rw [place] at mid
        cases mid

/-- A call loads the state and does not find the engine running. -/
theorem skip (found : e.calls[i]? = some c) (place : c.place = .load) :
    Single { e with calls := e.calls.set i { c with place := .skipped } } := by
  refine ⟨single.alive, single.unsignalled, single.once, ?_⟩
  rcases single.stage with untouched | ⟨j, d, g, taken⟩
  · exact Or.inl (untouched.caller (Or.inr rfl))
  · have ne : i ≠ j := by
      rintro rfl
      cases found.symm.trans taken.found
      have meeting := taken.meeting
      rw [place] at meeting
      cases meeting
    exact Or.inr ⟨j, d, g, taken.skips ne (Or.inr rfl)⟩

/-- A step of the one run. -/
theorem step (oneRun : OneRun e l) (ungapped : Ungapped e l)
    (stepped : Stepped cfg e l e') : Single e' ∨ Signalled e' := by
  have idle : ∀ {c : Call} {p : CallAt}, c.place = p → p ≠ .load → p ≠ .skipped → ¬ c.idle := by
    rintro c p place load skipped (here | here)
    · exact load (place.symm.trans here)
    · exact skipped (place.symm.trans here)
  have unstored : ∀ {i : Nat} {c : Call} {g : CloserAt} {p q : CallAt}, Taken e i c g →
      c.place = p → p ≠ .store → e.state = .running → q = .store := by
    intro i c g p q taken place other state
    exact absurd (place.symm.trans (taken.running state)) other
  cases stepped with
  | @callStart mainProcess address => exact Or.inl (single.callStart oneRun mainProcess address)
  | @call kind => exact Or.inl (single.call kind)
  | start found advanced => exact Or.inl (single.start found advanced)
  | @load i c found place running =>
    refine Or.inl ⟨single.alive, single.unsignalled, single.once, Or.inr ?_⟩
    rcases single.stage with untouched | ⟨j, d, g, taken⟩
    · exact ⟨i, _, _, untouched.taken found running rfl⟩
    · have stored := taken.running running
      exact absurd stored ((ungapped c found place running).1 d
        (mem_of_getElem? taken.found))
  | skip found place other => exact Or.inl (single.skip found place)
  | @store i c found place =>
    obtain ⟨g, taken⟩ := single.busy found (idle place CallAt.noConfusion CallAt.noConfusion)
    obtain rfl : g = .receiving := by
      have meeting := taken.meeting
      rw [place] at meeting
      cases meeting
      rfl
    have moved : Taken { e with
        state := .closing, closed := e.closed, closers := [.receiving]
        calls := e.calls.set i { c with place := .sending } } i { c with place := .sending }
        .receiving := taken.moves rfl .sending nofun
    rw [← taken.only] at moved
    exact Or.inl ⟨single.alive, single.unsignalled, single.once, Or.inr ⟨i, _, _, moved⟩⟩
  | notified _ =>
    refine Or.inl ⟨single.alive, fun member => ?_, single.once, ?_⟩
    · exact single.unsignalled ((mem_or_eq_of_mem_set member).resolve_right nofun)
    · rcases single.stage with untouched | ⟨i, c, g, taken⟩
      · exact Or.inl { untouched with }
      · exact Or.inr ⟨i, c, g, { taken with }⟩
  | @signal i j c found place receiving =>
    obtain ⟨g, taken⟩ := single.busy found (idle place CallAt.noConfusion CallAt.noConfusion)
    obtain ⟨rfl, rfl⟩ := taken.index receiving
    have meeting : Meeting c.kind.signalled (.received .user) := by
      cases c.kind with
      | shutdown => exact .awaiting ⟨nofun, nofun⟩
      | asyncShutdown => exact .returned nofun
    rw [taken.only, set_cons_zero]
    exact Or.inl ⟨single.alive, single.unsignalled, single.once,
      Or.inr ⟨i, _, _, taken.moves rfl meeting (unstored taken place CallAt.noConfusion)⟩⟩
  | @systemSignal n j sending receiving =>
    have lt := (List.getElem?_eq_some_iff.mp receiving).1
    refine Or.inr ⟨?_, _, mem_set lt _, nofun⟩
    rcases single.stage with untouched | ⟨i, c, g, taken⟩
    · exact untouched.calls
    · -- A call that has found the engine running has its signal received before.
      obtain ⟨_, rfl⟩ := taken.index receiving
      obtain ⟨unstored, unsent⟩ := ungapped c (mem_of_getElem? taken.found)
      have meeting := taken.meeting
      generalize c.place = p at meeting unstored unsent
      cases meeting with
      | store => exact absurd rfl unstored
      | sending => exact absurd rfl unsent
      | awaiting busy => exact absurd rfl busy.1
      | returned busy => exact absurd rfl busy
  | @close j run signal found closer =>
    obtain ⟨rfl, i, c, taken⟩ := single.signalled found CloserAt.noConfusion
    obtain rfl := CloserAt.user_received taken.user (Or.inl rfl)
    rw [taken.only, set_cons_zero]
    exact Or.inl ⟨single.alive, single.unsignalled, single.once,
      Or.inr ⟨i, c, _, taken.closerMoves nofun rfl ⟨nofun, nofun⟩ id⟩⟩
  | @closed j run signal found =>
    obtain ⟨rfl, i, c, taken⟩ := single.signalled found CloserAt.noConfusion
    obtain rfl := CloserAt.user_received taken.user (Or.inr (Or.inr (Or.inr ⟨run, rfl⟩)))
    rw [taken.only, set_cons_zero]
    exact Or.inl ⟨single.alive, single.unsignalled, single.once,
      Or.inr ⟨i, c, _, taken.closerMoves nofun rfl ⟨nofun, nofun⟩ id⟩⟩
  | @inactive j signal found =>
    obtain ⟨rfl, i, c, taken⟩ := single.signalled found CloserAt.noConfusion
    obtain rfl := CloserAt.user_received taken.user (Or.inr (Or.inl rfl))
    rw [taken.only, set_cons_zero]
    exact Or.inl ⟨single.alive, single.unsignalled, single.once,
      Or.inr ⟨i, c, _, taken.closerMoves nofun rfl ⟨nofun, nofun⟩ nofun⟩⟩
  | exit found =>
    obtain ⟨rfl, i, c, taken⟩ := single.signalled found CloserAt.noConfusion
    cases taken.user
  | @back j i c signal found place handing =>
    obtain ⟨g, taken⟩ := single.busy found (idle place CallAt.noConfusion CallAt.noConfusion)
    obtain ⟨rfl, rfl⟩ := taken.index handing
    obtain rfl := CloserAt.user_received taken.user (Or.inr (Or.inr (Or.inl rfl)))
    rw [taken.only, set_cons_zero]
    exact Or.inl ⟨single.alive, single.unsignalled, single.once,
      Or.inr ⟨i, _, _, taken.moves rfl (.returned nofun)
        (unstored taken place CallAt.noConfusion)⟩⟩

end Single

/-- Once a signal of the system was received, no call finds the engine running. -/
theorem Signalled.step (signalled : Signalled e) (ungapped : Ungapped e l)
    (stepped : Stepped cfg e l e') : Signalled e' := by
  obtain ⟨calls, g, member, busy⟩ := signalled
  have idle : ∀ {i : Nat} {c : Call}, e.calls[i]? = some c → c.idle :=
    fun found => calls _ (mem_of_getElem? found)
  have set : ∀ {j : Nat} {h h' : CloserAt}, e.closers[j]? = some h → h' ≠ .receiving →
      ∃ g ∈ e.closers.set j h', g ≠ .receiving := fun found other =>
    ⟨_, mem_set (List.getElem?_eq_some_iff.mp found).1 _, other⟩
  cases stepped with
  | callStart => exact ⟨calls, g, member, busy⟩
  | call =>
    refine ⟨fun c inside => ?_, g, member, busy⟩
    rcases mem_append.mp inside with old | new
    · exact calls c old
    · rw [mem_singleton.mp new]
      exact Or.inl rfl
  | start found advanced =>
    cases advanced with
    | works _ _ spawned _ =>
      rcases spawned with ⟨rfl, _⟩ | ⟨_, _, rfl⟩
      · exact ⟨calls, g, member, busy⟩
      · exact ⟨calls, g, mem_append_left _ member, busy⟩
    | outside _ _ _ | begins _ | closer _ | running _ => exact ⟨calls, g, member, busy⟩
  | load found place running => exact absurd ((ungapped _ found place running).2 g member) busy
  | skip found place other =>
    refine ⟨fun c inside => ?_, g, member, busy⟩
    rcases mem_or_eq_of_mem_set inside with old | rfl
    · exact calls c old
    · exact Or.inr rfl
  | store found place | signal found place _ | back found place _ =>
    rcases idle found with here | here <;> cases place.symm.trans here
  | notified _ => exact ⟨calls, g, member, busy⟩
  | systemSignal _ receiving => exact ⟨calls, set receiving nofun⟩
  | close found _ | closed found | inactive found | exit found => exact ⟨calls, set found nofun⟩

instance (e : Engine) (l : Label) : Decidable (OneRun e l) :=
  match l with
  | .callStart _ _ => decidable_of_iff (e.starts.isEmpty = true) isEmpty_iff
  | .start .. | .call _ | .caller _ | .notified _ | .signal .. | .systemSignal .. | .closer _
  | .back .. => isTrue trivial

instance (e : Engine) (l : Label) : Decidable (Ungapped e l) :=
  match l with
  | .caller i =>
    match found : e.calls[i]? with
    | none => isTrue fun _ at' => nomatch found.symm.trans at'
    | some c => decidable_of_iff (c.place = .load → e.state = .running →
          (∀ d ∈ e.calls, d.place ≠ .store) ∧ ∀ g ∈ e.closers, g = .receiving)
        ⟨fun all _ at' place => all ((Option.some.inj (found.symm.trans at')) ▸ place),
          fun all => all c found⟩
  | .systemSignal _ _ =>
    inferInstanceAs (Decidable (∀ c ∈ e.calls, c.place ≠ .store ∧ c.place ≠ .sending))
  | .callStart .. | .start .. | .call _ | .notified _ | .signal .. | .closer _ | .back .. =>
    isTrue trivial

end Engine

end Gain
