import Gain.Server.Start
import Gain.Worker.Loop

/-! # The mode of the workers

`start` looks at the network twice: once to choose between a reactor and shards, and
once, in `startSocketSharding`, to choose how the shards read. The socket itself is
opened by `normalize`, which takes `udp4` and `udp6` for datagrams as well. Both
choices are followed through every run of a start.
-/

namespace Gain

namespace Engine

/-- How the workers are run. -/
inductive Mode where
  /-- Consumers behind an acceptor. -/
  | reactor
  /-- Shards that receive datagrams, or accept connections of their own. -/
  | sharding (sendRecvMsg : Bool)
  deriving DecidableEq

variable {m : Mode}

namespace Mode

/-- `startReactor` leaves the field at its zero value. -/
def sendRecvMsg : Mode → Bool
  | reactor => false
  | sharding sendRecvMsg => sendRecvMsg

/-- The configuration that the workers are created with. -/
def worker (m : Mode) (base : Gain.Config) : Gain.Config :=
  { base with
    kind := if m = reactor then .consumer else .shard
    sendRecvMsg := m.sendRecvMsg }

/-- Connections are accepted by the acceptor or by every shard from the start of its loop. -/
def Accepts (m : Mode) : Prop :=
  m = reactor ∨ ∀ base streams,
    ∃ w, Worker.start (m.worker base) streams = some w ∧ w.accepting = true

theorem accepts_of_stream (stream : m.sendRecvMsg = false) : m.Accepts := by
  cases m with
  | reactor => exact .inl rfl
  | sharding sendRecvMsg =>
    obtain rfl : sendRecvMsg = false := stream
    exact .inr fun base streams => ⟨_, rfl, rfl⟩

end Mode

/-- The mode of the workers that `startSocketSharding` or `startReactor` creates. -/
def StartAt.mode (network : Text) : StartAt → Option Mode
  | .shards _ => some (.sharding (network = udp))
  | .balancer | .acceptor | .consumers _ => some .reactor
  | _ => none

/-- The workers run in the mode that the socket calls for. -/
structure Agrees (cfg : Config) (kind : SocketKind) (m : Mode) : Prop where
  datagram : kind = .datagram → m = .sharding true
  stream : kind = .stream →
    m.sendRecvMsg = false ∧ m.Accepts ∧ (m = .reactor ↔ cfg.architecture = .reactor)

/-- The test of `start`. -/
def Sharding (cfg : Config) (network : Text) : Prop :=
  cfg.architecture = .socketSharding ∨ network = udp

/-- The call opens the listeners of shards or creates shards. -/
def StartAt.sharding : StartAt → Bool
  | .listeners _ | .shards _ => true
  | _ => false

/-- The call opens the listener of a reactor or is in `startReactor`. -/
def StartAt.reacting : StartAt → Bool
  | .listener | .balancer | .acceptor | .consumers _ => true
  | _ => false

variable {cfg : Config} {e e' : Engine} {c c' : StartCall} {mainProcess : Bool} {address : Text}
  {s : Engine × StartCall}

/-- The call follows the choice made for its address. -/
structure Chosen (cfg : Config) (address : Text) (s : Engine × StartCall) : Prop where
  text : s.2.address = address
  sharding : s.2.place.sharding = true →
    s.1.network = (parseProtoAddr address).1 ∧ Sharding cfg s.1.network ∧ 0 ≤ cfg.workers
  reacting : s.2.place.reacting = true →
    s.1.network = (parseProtoAddr address).1 ∧ ¬ Sharding cfg s.1.network

/-- Nothing was chosen yet, or all workers are there. -/
theorem Chosen.of_neutral (same : s.2.address = address) (sharding : s.2.place.sharding = false)
    (reacting : s.2.place.reacting = false) : Chosen cfg address s := by
  refine ⟨same, fun inside => ?_, fun inside => ?_⟩
  · rw [sharding] at inside
    cases inside
  · rw [reacting] at inside
    cases inside

/-- The call goes on in the branch it has taken. -/
theorem Chosen.within {place : StartAt} (chosen : Chosen cfg address (e, c))
    (sharding : place.sharding = true → c.place.sharding = true)
    (reacting : place.reacting = true → c.place.reacting = true) :
    Chosen cfg address (e, { c with place := place }) :=
  ⟨chosen.text, fun inside => chosen.sharding (sharding inside),
    fun inside => chosen.reacting (reacting inside)⟩

/-- A step of `Start` follows the choice already made. -/
theorem Chosen.advance {s' : Engine × StartCall} {o : Outcome} (chosen : Chosen cfg address s)
    (moved : advance cfg s o = some s') : Chosen cfg address s' := by
  obtain ⟨e, c⟩ := s
  have same : c.address = address := chosen.text
  unfold Engine.advance at moved
  cases place : c.place with
  | isRunning | load | notify =>
    simp only [place] at moved
    split_ifs at moved <;> cases moved <;> exact .of_neutral same rfl rfl
  | probe =>
    simp only [place] at moved
    split at moved <;> cases moved <;> exact .of_neutral same rfl rfl
  | store | spawn | closer | launch | running | serving =>
    simp only [place] at moved
    cases moved
    exact .of_neutral same rfl rfl
  | parse =>
    simp only [place] at moved
    split_ifs at moved with sharding negative
    · cases moved
      exact ⟨same, fun _ => ⟨congrArg (fun text => (parseProtoAddr text).1) same, sharding,
        not_lt.mp negative⟩, nofun⟩
    · cases moved
      refine ⟨same, nofun, fun _ => ⟨?_, sharding⟩⟩
      exact congrArg (fun text => (parseProtoAddr text).1) same
  | listeners i | shards i =>
    simp only [place] at moved
    split_ifs at moved
    · split at moved
      · cases moved
        exact .of_neutral same rfl rfl
      · cases moved
        exact chosen.within (fun _ => by rw [place]; rfl) nofun
    · cases moved
      exact chosen.within (fun _ => by rw [place]; rfl) nofun
  | listener | acceptor | balancer =>
    simp only [place] at moved
    split at moved
    · cases moved
      exact .of_neutral same rfl rfl
    · cases moved
      exact chosen.within nofun (fun _ => by rw [place]; rfl)
  | consumers i =>
    simp only [place] at moved
    split_ifs at moved
    · split at moved
      · cases moved
        exact .of_neutral same rfl rfl
      · cases moved
        exact chosen.within nofun (fun _ => by rw [place]; rfl)
    · cases moved
      exact .of_neutral same rfl rfl
  | returned _ => simp only [place, reduceCtorEq] at moved

/-- In every run of a start, workers are only created in the branch chosen for the address. -/
theorem run_chosen {outcomes : List Outcome}
    (ran : run (advance cfg) outcomes (e, { mainProcess := mainProcess, address := address }) =
      some (e', c')) : Chosen cfg address (e', c') :=
  run_preserves (Chosen cfg address) (fun _ _ _ moved chosen => chosen.advance moved) ran
    (.of_neutral rfl rfl rfl)

/-- The workers agree with a socket whose network `start` and `normalize` read in one way. -/
theorem Chosen.agrees {kind : SocketKind} (chosen : Chosen cfg address (e, c))
    (plain : socketKind (parseProtoAddr address).1 = some .datagram →
      (parseProtoAddr address).1 = udp ∨ (cfg.architecture = .socketSharding ∧ cfg.workers < 0))
    (opened : socketKind e.network = some kind) (mode : c.place.mode e.network = some m) :
    Agrees cfg kind m := by
  have branch : c.place.sharding = true ∧ m = .sharding (e.network = udp) ∨
      c.place.reacting = true ∧ m = .reactor := by
    revert mode
    cases c.place with
    | shards i => exact fun mode => .inl ⟨rfl, (Option.some.inj mode).symm⟩
    | balancer | acceptor | consumers _ => exact fun mode => .inr ⟨rfl, (Option.some.inj mode).symm⟩
    | isRunning | load | store | probe | notify | spawn | parse | listeners _ | listener | closer
    | launch | running | serving | returned _ => exact nofun
  rcases branch with ⟨sharding, rfl⟩ | ⟨reacting, rfl⟩
  · obtain ⟨network, sharding, workers⟩ := chosen.sharding sharding
    rw [← network] at plain
    constructor
    · rintro rfl
      rcases plain opened with same | ⟨_, negative⟩
      · rw [decide_eq_true same]
      · exact absurd negative (not_lt.mpr workers)
    · rintro rfl
      have other : e.network ≠ udp := by
        intro same
        rw [same] at opened
        cases opened
      have plainly : Mode.sendRecvMsg (.sharding (e.network = udp)) = false := decide_eq_false other
      refine ⟨plainly, Mode.accepts_of_stream plainly, nofun, fun reactor => ?_⟩
      rw [sharding.resolve_right other] at reactor
      cases reactor
  · obtain ⟨network, reactor⟩ := chosen.reacting reacting
    rw [← network] at plain
    obtain ⟨architecture, other⟩ := not_or.mp reactor
    constructor
    · rintro rfl
      rcases plain opened with same | ⟨same, _⟩
      · exact absurd same other
      · exact absurd same architecture
    · intro _
      refine ⟨rfl, .inl rfl, fun _ => ?_, fun _ => rfl⟩
      cases known : cfg.architecture with
      | reactor => rfl
      | socketSharding => exact absurd known architecture

/-- Workers are being created, but not to receive datagrams. -/
def Misled (address : Text) (s : Engine × StartCall) : Prop :=
  ∃ m, s.1.network = (parseProtoAddr address).1 ∧ s.2.place.mode s.1.network = some m ∧
    m ≠ .sharding true

/-- A start with another name for datagrams comes to create such workers. -/
theorem reaches_misled (mainProcess : Bool) (known : socketKind (parseProtoAddr address).1 ≠ none)
    (other : (parseProtoAddr address).1 ≠ udp)
    (workers : ¬ (cfg.architecture = .socketSharding ∧ cfg.workers < 0)) :
    Reaches cfg (Misled address) ({}, { mainProcess := mainProcess, address := address }) := by
  refine .parse rfl fun e run => ?_
  by_cases sharding : cfg.architecture = .socketSharding
  · have created : Misled address
        ({ e with network := (parseProtoAddr address).1, address := (parseProtoAddr address).2 },
          ⟨mainProcess, address, .shards 0, run⟩) := by
      refine ⟨_, rfl, rfl, fun same => ?_⟩
      exact other (of_decide_eq_true (Mode.sharding.inj same))
    have nonneg : ¬ cfg.workers < 0 := fun negative => workers ⟨sharding, negative⟩
    refine .step ?_ (.listeners (c := ⟨mainProcess, address, .parse, run⟩) known (.here created))
    simp only [Engine.advance, if_pos (Or.inl sharding), if_neg nonneg]
  · have created : Misled address
        ({ e with network := (parseProtoAddr address).1, address := (parseProtoAddr address).2 },
          ⟨mainProcess, address, .balancer, run⟩) := by
      refine ⟨_, rfl, rfl, fun same => ?_⟩
      cases same
    refine .step ?_ (.listener (c := ⟨mainProcess, address, .parse, run⟩) known (.here created))
    simp only [Engine.advance, if_neg (not_or.mpr ⟨sharding, other⟩)]

/-- In every run of a start the workers are created in the mode that the socket calls for, if and
only if a network of datagrams is called just `udp`, or the number of shards is negative and there
are no workers. -/
theorem start_agrees_iff (cfg : Config) (address : Text) :
    (∀ (mainProcess : Bool) (e : Engine) (outcomes : List Outcome) (e' : Engine) (c' : StartCall)
      (kind : SocketKind) (m : Mode),
      run (advance cfg) outcomes (e, { mainProcess := mainProcess, address := address }) =
        some (e', c') →
      socketKind e'.network = some kind → c'.place.mode e'.network = some m → Agrees cfg kind m) ↔
    (socketKind (parseProtoAddr address).1 = some .datagram →
      (parseProtoAddr address).1 = udp ∨
        (cfg.architecture = .socketSharding ∧ cfg.workers < 0)) := by
  constructor
  · intro all datagram
    by_contra wrong
    obtain ⟨other, workers⟩ := not_or.mp wrong
    have known : socketKind (parseProtoAddr address).1 ≠ none := by
      rw [datagram]
      exact Option.some_ne_none _
    obtain ⟨n, ⟨e', c'⟩, ran, m, network, mode, differs⟩ := reaches_misled false known other workers
    have opened : socketKind e'.network = some .datagram := by
      rw [show e'.network = _ from network, datagram]
    exact differs ((all false {} _ e' c' .datagram m ran opened mode).datagram rfl)
  · intro plain mainProcess e outcomes e' c' kind m ran opened mode
    exact (run_chosen ran).agrees plain opened mode

/-- `Udp4://:80` opens a datagram socket; a reactor is started for it, or shards that accept. -/
theorem start_disagrees :
    (∃ e' c', run (advance { workers := 1 }) (List.replicate 8 {})
        ({}, { mainProcess := false, address := "Udp4://:80".toList }) = some (e', c') ∧
      socketKind e'.network = some .datagram ∧ c'.place.mode e'.network = some .reactor ∧
      ¬ Agrees { workers := 1 } .datagram .reactor) ∧
    (∃ e' c', run (advance { architecture := .socketSharding, workers := 1 }) (List.replicate 9 {})
        ({}, { mainProcess := false, address := "Udp4://:80".toList }) = some (e', c') ∧
      socketKind e'.network = some .datagram ∧ c'.place.mode e'.network = some (.sharding false) ∧
      ¬ Agrees { architecture := .socketSharding, workers := 1 } .datagram (.sharding false)) := by
  refine ⟨⟨_, _, rfl, rfl, rfl, fun agrees => ?_⟩, ⟨_, _, rfl, rfl, rfl, fun agrees => ?_⟩⟩
  · cases agrees.datagram rfl
  · cases agrees.datagram rfl

end Engine

end Gain
