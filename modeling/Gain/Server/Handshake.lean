import Mathlib.Tactic.MkIffOfInductiveProp
import Gain.Server.Steps

/-! # The handshake of a shutdown

`Shutdown` signals a close goroutine and waits for it to hand back. The channels
are shared by all runs of the engine, and every close goroutine hands back whether
or not somebody waits for it.
-/

namespace Gain

open List

namespace Engine

variable {cfg : Config} {e e' : Engine} {α : Type} {i : Nat} {c c' : StartCall}

/-- Between the load that has seen a running engine and the return. -/
def Call.engaged (c : Call) : Bool :=
  match c.place with
  | .store | .sending | .awaiting => true
  | .load | .skipped | .returned => false

/-- Between the signal and the end. -/
def CloserAt.engaged : CloserAt → Bool
  | .receiving | .finished => false
  | _ => true

/-- Every `Shutdown` that was handed back to has seen the closer of its run return. -/
def Attended (e : Engine) : Prop :=
  ∀ c ∈ e.calls, c.kind = .shutdown → c.place = .returned → c.run ∈ e.closed

/-- Nothing of an earlier shutdown or of another start is underway. -/
@[mk_iff]
structure Settled (e : Engine) : Prop where
  calls : ∀ c ∈ e.calls, c.engaged = false
  closers : ∀ g ∈ e.closers, g.engaged = false
  starts : ∀ c ∈ e.starts, c.place.midway = false

instance (e : Engine) : Decidable (Settled e) := decidable_of_iff' _ (settled_iff e)

/-- A start begins its run only when the engine is settled. -/
def Unhurried (e : Engine) : Label → Prop
  | .start i _ => ∀ c, e.starts[i]? = some c → c.place = .store → Settled e
  | _ => True

/-- Only `Start` is called, not `StartAsMainProcess`. -/
def Label.plain : Label → Bool
  | .callStart mainProcess _ => !mainProcess
  | _ => true

/-- While a start is midway nothing else happens, and otherwise everything that happens
concerns the run started last. -/
structure Paced (e : Engine) : Prop where
  plain : e.notifiers = [] ∧ ∀ c ∈ e.starts, c.mainProcess = false
  midway : ∀ c ∈ e.starts, c.place.midway = true → e.state = .starting ∧
    (∀ c ∈ e.calls, c.engaged = false) ∧ ∀ g ∈ e.closers, g.engaged = false
  alone : ∀ (i j : Nat) (c d : StartCall), e.starts[i]? = some c → e.starts[j]? = some d →
    c.place.midway = true → d.place.midway = true → i = j
  launched : ∀ c ∈ e.starts, c.place = .launch ∨ c.place = .running → e.closer = some c.run
  running : e.state = .running → e.closer = some e.current
  calls : ∀ c ∈ e.calls, c.engaged = true → e.closer = some e.current ∧ c.run = e.current
  closers : ∀ g ∈ e.closers, g.engaged = true → e.closer = some e.current
  closing : ∀ signal run, CloserAt.closing signal run ∈ e.closers → run = e.current
  closed : ∀ g ∈ e.closers, (∃ signal, g = .storing signal ∨ g = .handingBack signal) →
    e.current ∈ e.closed
  attended : Attended e

/-! ## Runs one after the other -/

theorem forall_mem_set {property : α → Prop} {l : List α} (all : ∀ x ∈ l, property x) {a : α}
    (new : property a) : ∀ x ∈ l.set i a, property x := by
  intro x member
  rcases mem_or_eq_of_mem_set member with old | rfl
  · exact all x old
  · exact new

theorem forall_mem_concat {property : α → Prop} {l : List α} (all : ∀ x ∈ l, property x) {a : α}
    (new : property a) : ∀ x ∈ l ++ [a], property x :=
  forall_mem_append.mpr ⟨all, forall_mem_singleton.mpr new⟩

namespace Paced

variable (paced : Paced e)
include paced

/-- Nothing is underway besides a start that is midway. -/
theorem unhurried {c : Call} (member : c ∈ e.calls) (engaged : c.engaged = true) :
    ∀ d ∈ e.starts, d.place.midway = false := by
  intro d inside
  by_contra mid
  rw [Bool.not_eq_false] at mid
  have idle := (paced.midway d inside mid).2.1 c member
  rw [idle] at engaged
  cases engaged

theorem unhurried_closer {g : CloserAt} (member : g ∈ e.closers)
    (engaged : g.engaged = true) : ∀ d ∈ e.starts, d.place.midway = false := by
  intro d inside
  by_contra mid
  rw [Bool.not_eq_false] at mid
  have idle := (paced.midway d inside mid).2.2 g member
  rw [idle] at engaged
  cases engaged

/-- One call moves on. -/
theorem setCall {c' : Call}
    (engaged : c'.engaged = true → (∀ d ∈ e.starts, d.place.midway = false) ∧
      e.closer = some e.current ∧ c'.run = e.current)
    (handed : c'.kind = .shutdown → c'.place = .returned → c'.run ∈ e.closed) :
    Paced { e with calls := e.calls.set i c' } where
  __ := paced
  midway d inside mid := by
    refine ⟨(paced.midway d inside mid).1, ?_, (paced.midway d inside mid).2.2⟩
    refine forall_mem_set (paced.midway d inside mid).2.1 ?_
    by_contra busy
    have none' := (engaged (by simpa using busy)).1 d inside
    rw [none'] at mid
    cases mid
  calls := forall_mem_set paced.calls fun busy => (engaged busy).2
  attended := forall_mem_set paced.attended handed

/-- One close goroutine moves on. -/
theorem setCloser {j : Nat} {g' : CloserAt}
    (engaged : g'.engaged = true → (∀ d ∈ e.starts, d.place.midway = false) ∧
      e.closer = some e.current)
    (closing : ∀ signal run, g' = .closing signal run → run = e.current)
    (closed : (∃ signal, g' = .storing signal ∨ g' = .handingBack signal) → e.current ∈ e.closed) :
    Paced { e with closers := e.closers.set j g' } where
  __ := paced
  midway d inside mid := by
    refine ⟨(paced.midway d inside mid).1, (paced.midway d inside mid).2.1, ?_⟩
    refine forall_mem_set (paced.midway d inside mid).2.2 ?_
    by_contra busy
    have none' := (engaged (by simpa using busy)).1 d inside
    rw [none'] at mid
    cases mid
  closers := forall_mem_set paced.closers fun busy => (engaged busy).2
  closing signal run member := by
    rcases mem_or_eq_of_mem_set member with old | new
    · exact paced.closing signal run old
    · exact closing signal run new.symm
  closed := forall_mem_set paced.closed closed

variable {phase : Phase}

/-- The state changes while no start is midway. -/
theorem setState (other : phase ≠ .running)
    (calm : ∀ d ∈ e.starts, d.place.midway = false) : Paced { e with state := phase } where
  __ := paced
  midway d inside mid := by
    rw [calm d inside] at mid
    cases mid
  running state := absurd state other

theorem setClosed (run : Nat) : Paced { e with closed := run :: e.closed } where
  __ := paced
  closed g member stage := mem_cons_of_mem _ (paced.closed g member stage)
  attended c member kind place := mem_cons_of_mem _ (paced.attended c member kind place)

/-- A start moves on that is midway only if it was. -/
theorem setStart (found : e.starts[i]? = some c)
    (main : c'.mainProcess = c.mainProcess) (mid : c'.place.midway = true → c.place.midway = true)
    (launched : c'.place = .launch ∨ c'.place = .running → e.closer = some c'.run) :
    Paced { e with starts := e.starts.set i c' } where
  __ := paced
  plain := by
    refine ⟨paced.plain.1, forall_mem_set paced.plain.2 ?_⟩
    exact main.trans (paced.plain.2 c (mem_of_getElem? found))
  midway := forall_mem_set paced.midway fun now => paced.midway c (mem_of_getElem? found) (mid now)
  alone a b d₁ d₂ first second mid₁ mid₂ := by
    have before : ∀ {a : Nat} {d : StartCall}, (e.starts.set i c')[a]? = some d →
        d.place.midway = true → ∃ d, e.starts[a]? = some d ∧ d.place.midway = true := by
      intro a d inside now
      rw [List.getElem?_set] at inside
      split_ifs at inside with same
      · cases inside
        exact ⟨c, same ▸ found, mid now⟩
      · exact ⟨d, inside, now⟩
    obtain ⟨_, first, mid₁⟩ := before first mid₁
    obtain ⟨_, second, mid₂⟩ := before second mid₂
    exact paced.alone a b _ _ first second mid₁ mid₂
  launched := forall_mem_set paced.launched launched

/-- A start begins while the engine is settled. -/
theorem begins (settled : Settled e) (found : e.starts[i]? = some c) :
    Paced { e with
      state := .starting, runs := e.runs + 1
      starts := e.starts.set i { c with place := .probe, run := e.runs } } where
  plain := by
    refine ⟨paced.plain.1, forall_mem_set paced.plain.2 ?_⟩
    exact paced.plain.2 c (mem_of_getElem? found)
  midway _ _ _ := ⟨rfl, settled.calls, settled.closers⟩
  alone a b d₁ d₂ first second mid₁ mid₂ := by
    have place : ∀ {a : Nat} {d : StartCall},
        (e.starts.set i { c with place := .probe, run := e.runs })[a]? = some d →
        d.place.midway = true → i = a := by
      intro a d inside now
      by_contra other
      rw [List.getElem?_set_ne other] at inside
      rw [settled.starts d (mem_of_getElem? inside)] at now
      cases now
    rw [← place first mid₁, ← place second mid₂]
  launched := by
    refine forall_mem_set paced.launched ?_
    rintro (place | place) <;> cases place
  running := nofun
  calls c member busy := by
    rw [settled.calls c member] at busy
    cases busy
  closers g member busy := by
    rw [settled.closers g member] at busy
    cases busy
  closing signal run member := by
    have idle := settled.closers _ member
    cases idle
  closed g member stage := by
    have idle := settled.closers g member
    obtain ⟨signal, rfl | rfl⟩ := stage <;> cases idle
  attended := paced.attended

/-- The only start that is midway changes what only shutdowns read. -/
theorem settles (found : e.starts[i]? = some c) (mid : c.place.midway = true)
    (main : c'.mainProcess = c.mainProcess) {closer : Option Nat} {current : Nat}
    (waits : c'.place.midway = true → phase = .starting)
    (launched : c'.place = .launch ∨ c'.place = .running → closer = some c'.run)
    (running : phase = .running → closer = some current) : Paced { e with
      state := phase, closer := closer, current := current, starts := e.starts.set i c' } where
  plain := by
    refine ⟨paced.plain.1, forall_mem_set paced.plain.2 ?_⟩
    exact main.trans (paced.plain.2 c (mem_of_getElem? found))
  midway := by
    obtain ⟨_, calls, closers⟩ := paced.midway c (mem_of_getElem? found) mid
    intro d inside now
    refine ⟨waits ?_, calls, closers⟩
    obtain ⟨a, at'⟩ := mem_iff_getElem?.mp inside
    rw [List.getElem?_set] at at'
    split_ifs at at' with same
    · cases at'
      exact now
    · exact absurd (paced.alone i a c d found at' mid now) same
  alone a b d₁ d₂ first second mid₁ mid₂ := by
    have place : ∀ {a : Nat} {d : StartCall}, (e.starts.set i c')[a]? = some d →
        d.place.midway = true → i = a := by
      intro a d inside now
      by_contra other
      rw [List.getElem?_set_ne other] at inside
      exact other (paced.alone i a c d found inside mid now)
    rw [← place first mid₁, ← place second mid₂]
  launched := by
    intro d inside late
    obtain ⟨a, at'⟩ := mem_iff_getElem?.mp inside
    rw [List.getElem?_set] at at'
    split_ifs at at' with same
    · cases at'
      exact launched late
    · have now : d.place.midway = true := by rcases late with late | late <;> rw [late] <;> rfl
      exact absurd (paced.alone i a c d found at' mid now) same
  running := running
  calls d member busy := by
    rw [(paced.midway c (mem_of_getElem? found) mid).2.1 d member] at busy
    cases busy
  closers g member busy := by
    rw [(paced.midway c (mem_of_getElem? found) mid).2.2 g member] at busy
    cases busy
  closing signal run member := by
    have idle := (paced.midway c (mem_of_getElem? found) mid).2.2 _ member
    cases idle
  closed g member stage := by
    have idle := (paced.midway c (mem_of_getElem? found) mid).2.2 g member
    obtain ⟨signal, rfl | rfl⟩ := stage <;> cases idle
  attended := paced.attended

/-- A close goroutine is spawned, which nothing waits for. -/
theorem spawned {network address : Text} {closers : List CloserAt}
    (spawned : closers = e.closers ∨ closers = e.closers ++ [.receiving]) :
    Paced { e with network := network, address := address, closers := closers } := by
  have inside : ∀ g ∈ closers, g ∈ e.closers ∨ g = .receiving := by
    intro g member
    rcases spawned with rfl | rfl
    · exact Or.inl member
    · simpa using member
  refine ⟨paced.plain, ?_, paced.alone, paced.launched, paced.running, paced.calls, ?_, ?_, ?_,
    paced.attended⟩
  · intro d start mid
    obtain ⟨state, calls, idle⟩ := paced.midway d start mid
    refine ⟨state, calls, fun g member => ?_⟩
    rcases inside g member with old | rfl
    · exact idle g old
    · rfl
  · intro g member busy
    rcases inside g member with old | rfl
    · exact paced.closers g old busy
    · cases busy
  · intro signal run member
    rcases inside _ member with old | new
    · exact paced.closing signal run old
    · cases new
  · intro g member stage
    rcases inside g member with old | rfl
    · exact paced.closed g old stage
    · obtain ⟨signal, same | same⟩ := stage <;> cases same

end Paced

/-- A call of `Start` goes on. -/
theorem Paced.advanced (paced : Paced e) {e₁ : Engine} (found : e.starts[i]? = some c)
    (settled : c.place = .store → Settled e) (advanced : Advanced e c e₁ c') :
    Paced { e₁ with starts := e.starts.set i c' } := by
  cases advanced with
  | outside before after order =>
    apply paced.setStart found
    · rfl
    · exact fun now => absurd after (by rw [now]; decide)
    · dsimp only
      rintro (late | late) <;> rw [late] at after <;> cases after
  | begins place => exact paced.begins (settled place) found
  | works before late spawned notified =>
    have plain := paced.plain.2 c (mem_of_getElem? found)
    rcases notified with rfl | ⟨main, _⟩
    · have launched : c.place = .launch → e.closer = some c.run :=
        fun place => paced.launched c (mem_of_getElem? found) (Or.inl place)
      have spawned' := spawned.imp And.left fun spawned => spawned.2.2
      exact (paced.spawned spawned').setStart found (by rfl) (fun _ => before)
        fun place => launched (late place)
    · rw [plain] at main
      cases main
  | closer place =>
    have mid : c.place.midway = true := by rw [place]; rfl
    have state := (paced.midway c (mem_of_getElem? found) mid).1
    refine paced.settles found mid (by rfl) (fun _ => state) (fun _ => rfl) fun running => ?_
    rw [state] at running
    cases running
  | running place =>
    have mid : c.place.midway = true := by rw [place]; rfl
    have closer := paced.launched c (mem_of_getElem? found) (Or.inr place)
    exact paced.settles found mid (by rfl) nofun nofun fun _ => closer

/-- A start is called. -/
theorem Paced.callStart (paced : Paced e) (address : Text) :
    Paced { e with starts := e.starts ++ [{ mainProcess := false, address := address }] } := by
  have before : ∀ {a : Nat} {c : StartCall},
      (e.starts ++ [{ mainProcess := false, address := address }])[a]? = some c →
      c.place.midway = true → e.starts[a]? = some c := by
    intro a c inside mid
    rcases Nat.lt_or_ge a e.starts.length with lt | ge
    · rwa [List.getElem?_append_left lt] at inside
    · rw [List.getElem?_append_right ge] at inside
      rw [mem_singleton.mp (mem_of_getElem? inside)] at mid
      cases mid
  refine { paced with
    plain := ⟨paced.plain.1, forall_mem_concat paced.plain.2 rfl⟩
    midway := forall_mem_concat paced.midway fun mid => ?_
    alone := ?_
    launched := forall_mem_concat paced.launched fun late => ?_ }
  · cases mid
  · intro a b c d first second mid₁ mid₂
    exact paced.alone a b c d (before first mid₁) (before second mid₂) mid₁ mid₂
  · rcases late with late | late <;> cases late

/-- A shutdown is called. -/
theorem Paced.call (paced : Paced e) (kind : CallKind) :
    Paced { e with calls := e.calls ++ [{ kind := kind }] } := by
  refine { paced with
    midway := fun d inside mid => ?_
    calls := forall_mem_concat paced.calls fun engaged => ?_
    attended := forall_mem_concat paced.attended fun _ returned => ?_ }
  · obtain ⟨state, calls, closers⟩ := paced.midway d inside mid
    exact ⟨state, forall_mem_concat calls rfl, closers⟩
  · cases engaged
  · cases returned

/-- Every unhurried step keeps the pace. -/
theorem Paced.step {l : Label} (paced : Paced e) (plain : l.plain = true)
    (unhurried : Unhurried e l) (stepped : Stepped cfg e l e') : Paced e' := by
  cases stepped with
  | @callStart mainProcess address =>
    obtain rfl : mainProcess = false := by simpa [Label.plain] using plain
    exact paced.callStart address
  | @call kind => exact paced.call kind
  | start found advanced => exact paced.advanced found (unhurried _ found) advanced
  | load found place running =>
    refine paced.setCall (fun _ => ⟨fun d inside => ?_, paced.running running, rfl⟩) nofun
    by_contra mid
    have state := (paced.midway d inside (by simpa using mid)).1
    rw [running] at state
    cases state
  | skip found place other => exact paced.setCall nofun nofun
  | @store i c found place =>
    have member := mem_of_getElem? found
    have busy : c.engaged = true := by rw [Call.engaged, place]
    have calm := paced.unhurried member busy
    have closing : Paced { e with state := .closing } := paced.setState nofun calm
    refine closing.setCall (fun _ => ?_) nofun
    exact ⟨calm, paced.calls c member busy⟩
  | notified waiting =>
    rw [paced.plain.1] at waiting
    cases waiting
  | @signal i j c found place receiving =>
    have member := mem_of_getElem? found
    have busy : c.engaged = true := by rw [Call.engaged, place]
    have calm := paced.unhurried member busy
    obtain ⟨closer, run⟩ := paced.calls c member busy
    have signalled :
        Paced { e with calls := e.calls.set i { c with place := c.kind.signalled } } := by
      refine paced.setCall (fun _ => ⟨calm, closer, run⟩) fun kind returned => ?_
      rw [show c.kind = .shutdown from kind] at returned
      cases returned
    exact signalled.setCloser (fun _ => ⟨calm, closer⟩) nofun nofun
  | systemSignal sending receiving =>
    rw [paced.plain.1] at sending
    cases sending
  | @close j run signal found closer =>
    have member := mem_of_getElem? found
    have calm := paced.unhurried_closer member rfl
    have current := paced.closers _ member rfl
    refine paced.setCloser (fun _ => ⟨calm, current⟩) ?_ nofun
    intro _ run' same
    cases same
    rw [current] at closer
    cases closer
    rfl
  | @closed j run signal found =>
    have member := mem_of_getElem? found
    have calm := paced.unhurried_closer member rfl
    have current := paced.closers _ member rfl
    refine (paced.setClosed run).setCloser (fun _ => ⟨calm, current⟩) nofun fun _ => ?_
    rw [← paced.closing signal run member]
    exact mem_cons_self
  | @inactive j signal found =>
    have member := mem_of_getElem? found
    have calm := paced.unhurried_closer member rfl
    have closed := paced.closed _ member ⟨signal, Or.inl rfl⟩
    have inactive : Paced { e with state := .inactive } := paced.setState nofun calm
    refine inactive.setCloser (fun _ => ?_) nofun fun _ => closed
    exact ⟨calm, paced.closers _ member rfl⟩
  | @exit j found =>
    have finished : Paced { e with closers := e.closers.set j .finished } :=
      paced.setCloser nofun nofun nofun
    exact { finished with }
  | @back j i c signal found place handing =>
    have member := mem_of_getElem? handing
    have calm := paced.unhurried_closer member rfl
    have closer := paced.closers _ member rfl
    have closed := paced.closed _ member ⟨signal, Or.inr rfl⟩
    have busy : c.engaged = true := by rw [Call.engaged, place]
    have run := (paced.calls c (mem_of_getElem? found) busy).2
    have returned : Paced { e with calls := e.calls.set i { c with place := .returned } } := by
      refine paced.setCall nofun fun _ _ => ?_
      change c.run ∈ e.closed
      rw [run]
      exact closed
    refine returned.setCloser (fun _ => ⟨calm, closer⟩) ?_ ?_
    · intro _ _ same
      split_ifs at same
    · rintro ⟨_, same | same⟩ <;> split_ifs at same

/-- Nothing has been called yet. -/
theorem paced_initial : Paced {} where
  plain := ⟨rfl, forall_mem_nil _⟩
  midway := forall_mem_nil _
  alone := fun i j c d found => by cases found
  launched := forall_mem_nil _
  running := fun running => by cases running
  calls := forall_mem_nil _
  closers := forall_mem_nil _
  closing := fun signal run member => by cases member
  closed := forall_mem_nil _
  attended := forall_mem_nil _

/-- When every run begins after the shutdowns before it are over, a `Shutdown` returns only
after the closer of its run. -/
theorem run_attended_of_unhurried {ls : List Label} (plain : ∀ l ∈ ls, l.plain = true)
    (ran : run (step cfg) ls {} = some e) (along : Along (step cfg) Unhurried ls {}) :
    Attended e := by
  have preserved : ∀ e l e', l.plain = true ∧ Unhurried e l → step cfg e l = some e' → Paced e →
      Paced e' :=
    fun e l e' fine stepped paced => paced.step fine.1 fine.2 (step_stepped stepped)
  have both := (along_of_forall plain).and along
  exact (invariant_of_run preserved ran both paced_initial).attended

instance (e : Engine) (l : Label) : Decidable (Unhurried e l) :=
  match l with
  | .start i _ =>
    match found : e.starts[i]? with
    | none => isTrue fun _ at' => nomatch found.symm.trans at'
    | some c => decidable_of_iff (c.place = .store → Settled e)
        ⟨fun all _ at' place => all ((Option.some.inj (found.symm.trans at')) ▸ place),
          fun all => all c found⟩
  | .callStart .. | .call _ | .caller _ | .notified _ | .signal .. | .systemSignal .. | .closer _
  | .back .. => isTrue trivial

instance (e : Engine) : Decidable (Attended e) :=
  inferInstanceAs (Decidable (∀ c ∈ e.calls, _ → _ → _))

/-- The engine is shut down and started again. -/
def restart : List Label :=
  serve 0 ++ ([.call .shutdown, .caller 0, .caller 0, .signal 0 0, .closer 0, .closer 0, .closer 0,
    .back 0 0] : List Label) ++ serve 1

theorem run_attended_of_unhurried_restart :
    ∃ e, run (step { workers := 1 }) restart {} = some e ∧ e.current = 1 ∧ Attended e := by
  have plain : ∀ l ∈ restart, l.plain = true := by decide
  have along : Along (step { workers := 1 }) Unhurried restart {} := by decide
  exact ⟨_, rfl, rfl, run_attended_of_unhurried plain rfl along⟩

/-- The hand-back of an asynchronous shutdown is left over and ends the `Shutdown` of the
next run before its closer has been called. -/
theorem run_not_attended :
    ∃ e, run (step { workers := 1 }) (serve 0 ++ [.call .asyncShutdown, .caller 0, .caller 0,
        .signal 0 0, .closer 0, .closer 0, .closer 0] ++ serve 1 ++ [.call .shutdown, .caller 1,
        .caller 1, .signal 1 1, .back 0 1]) {} = some e ∧ ¬ Attended e :=
  ⟨_, rfl, by decide⟩

end Engine

end Gain
