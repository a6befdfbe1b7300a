import Mathlib.Algebra.BigOperators.Group.Finset.Basic
import Mathlib.Algebra.Order.BigOperators.Group.Finset
import Gain.Process.Recycling

/-! # Ring buffers taken and given back

An account of the ring buffers: those that were handed out by `ringbuffer.Get`, those
that were given to `ringbuffer.Put`, and those that connections have. `fork` gives the
forked connection the ring buffers of the main one and forgets the two that came with
it, so that every datagram takes two ring buffers out of the account.
-/

namespace Gain

open Function List Option

/-- The ring buffers a connection has. -/
def ConnObject.rings (c : ConnObject) : List Nat :=
  c.inboundBuffer.toList ++ c.outboundBuffer.toList

namespace Process

variable (pageSize : Nat) (pos : 0 < pageSize)

/-- The ring buffers of a connection, if there is one. -/
def ringsOf (p : Process) (ptr : Option Nat) : List Nat :=
  (ptr.map fun o => (p.conns o).rings).getD []

/-- The ring buffers that come with the connection a fork is made of. -/
def overwritten (p : Process) : Label → List Nat
  | .fork m _ _ => ((p.forkee pageSize pos m).2.conns (p.forkee pageSize pos m).1).rings
  | _ => []

/-- The ring buffers a step takes with `ringbuffer.Get`, given the process after it. -/
def obtained (p p' : Process) : Label → List Nat
  | .get m key _ =>
    if (entries p.managers (m, key)).isNone then p'.ringsOf (entries p'.managers (m, key)) else []
  | .fork m key write =>
    p.overwritten pageSize pos (.fork m key write) ++ p'.ringsOf (entries p.managers (m, key))
  | _ => []

/-- The ring buffers a step gives to `ringbuffer.Put`. -/
def given (p : Process) : Label → List Nat
  | .release m key => p.ringsOf (entries p.managers (m, key))
  | _ => []

/-- A process with the account of its ring buffers. -/
structure Audit where
  process : Process
  got : List Nat := []
  put : List Nat := []

def Audit.step (a : Audit) (label : Label) : Option Audit := do
  let p ← a.process.step pageSize pos label
  return ⟨p, obtained pageSize pos a.process p label ++ a.got, given a.process label ++ a.put⟩

/-- The ring buffers that connections have. -/
def held (p : Process) : Multiset Nat :=
  ∑ o ∈ Finset.range p.nextConn, ((p.conns o).rings : Multiset Nat)

variable {pageSize pos} {p p' : Process} {o f m : Nat} {key : Int} {c : ConnObject} {write : Bool}
  {label : Label} {a a' : Audit} {lost : Multiset Nat} {ls : List Label} {r : Nat}

theorem rings_of_buffer {c' : ConnObject} (same : ∀ side, c'.buffer side = c.buffer side) :
    c'.rings = c.rings := by
  have inbound : c'.inboundBuffer = c.inboundBuffer := same .inbound
  have outbound : c'.outboundBuffer = c.outboundBuffer := same .outbound
  rw [ConnObject.rings, inbound, outbound, ConnObject.rings]

/-- One connection changes. -/
theorem held_update (same : p'.nextConn = p.nextConn) (lt : o < p.nextConn)
    (conns : p'.conns = update p.conns o c) :
    p'.held + ((p.conns o).rings : Multiset Nat) = p.held + (c.rings : Multiset Nat) := by
  have inside : o ∈ Finset.range p.nextConn := Finset.mem_range.mpr lt
  have others : ∑ i ∈ (Finset.range p.nextConn).erase o, ((p'.conns i).rings : Multiset Nat) =
      ∑ i ∈ (Finset.range p.nextConn).erase o, ((p.conns i).rings : Multiset Nat) := by
    apply Finset.sum_congr rfl
    intro i member
    rw [conns, update_of_ne (Finset.ne_of_mem_erase member)]
  have self : (p'.conns o).rings = c.rings := by rw [conns, update_self]
  rw [held, held, same, ← Finset.add_sum_erase _ _ inside, others, self,
    ← Finset.add_sum_erase (Finset.range p.nextConn) _ inside]
  ac_rfl

theorem held_of_rings (same : p'.nextConn = p.nextConn)
    (rings : ∀ o, (p'.conns o).rings = (p.conns o).rings) : p'.held = p.held := by
  rw [held, held, same]
  exact Finset.sum_congr rfl fun o _ => congrArg _ (rings o)

/-- A connection is taken with two ring buffers that no connection had. -/
theorem Obtained.held (new : Obtained pageSize pos p o p')
    (pooled : ∀ o ∈ p.connPool.items, (p.conns o).rings = [])
    (bound : ∀ o ∈ p.connPool.items, o < p.nextConn) :
    p'.held = p.held + ((p'.conns o).rings : Multiset Nat) ∧ o < p'.nextConn ∧
      p.nextConn ≤ p'.nextConn ∧ (p'.conns o).rings.length = 2 := by
  obtain ⟨r₁, r₂, _, base, _, _, conns, ⟨_, member, same⟩ | ⟨_, rfl, next⟩⟩ := new.rings
  · have self : (p'.conns o).rings = [r₁, r₂] := by
      rw [conns, update_self]
      rfl
    have sum := held_update same (bound o member) conns
    rw [pooled o member, Multiset.coe_nil, add_zero] at sum
    rw [self, same]
    exact ⟨sum, bound o member, le_rfl, rfl⟩
  · have self : (p'.conns p.nextConn).rings = [r₁, r₂] := by
      rw [conns, update_self]
      rfl
    have others : ∑ i ∈ Finset.range p.nextConn, ((p'.conns i).rings : Multiset Nat) = p.held := by
      apply Finset.sum_congr rfl
      intro i member
      rw [conns, update_of_ne (Finset.mem_range.mp member).ne]
    have sum : p'.held = p.held + ((p'.conns p.nextConn).rings : Multiset Nat) := by
      rw [← others, Process.held, next, Finset.sum_range_succ]
    rw [self] at sum ⊢
    exact ⟨sum, by omega, by omega, rfl⟩

/-- The forked connection takes over the ring buffers of the main one. -/
theorem Parted.held (parted : Parted pageSize pos p o f key p') (lt : o < p.nextConn)
    (lt' : f < p.nextConn) (other : o ≠ f) :
    p'.held + ((p.conns f).rings : Multiset Nat) =
      p.held + ((p'.conns o).rings : Multiset Nat) := by
  obtain ⟨r₁, r₂, s₁, c, forked, _, _, conns, sides, _, _, _, _⟩ := parted.rings
  have first := @held_update p (p.setConn f forked) f forked rfl lt' rfl
  have second := @held_update (p.setConn f forked) p' o c parted.nextConn lt conns
  have main : (p'.conns o).rings = c.rings := by rw [conns, update_self]
  have before : ((p.setConn f forked).conns o).rings = (p.conns o).rings :=
    congrArg ConnObject.rings (update_of_ne other ..)
  rw [rings_of_buffer sides] at first
  rw [before] at second
  rw [main]
  apply add_right_cancel (b := ((p.conns o).rings : Multiset Nat))
  calc p'.held + ((p.conns f).rings : Multiset Nat) + ((p.conns o).rings : Multiset Nat)
      = p'.held + ((p.conns o).rings : Multiset Nat) + ((p.conns f).rings : Multiset Nat) := by
        ac_rfl
    _ = (p.setConn f forked).held + ((p.conns f).rings : Multiset Nat) + c.rings := by
        rw [second]
        ac_rfl
    _ = p.held + c.rings + ((p.conns o).rings : Multiset Nat) := by
        rw [first]
        ac_rfl

/-- No connection in the pool has a ring buffer. -/
def Stripped (p : Process) : Prop := ∀ o ∈ p.connPool.items, (p.conns o).rings = []

theorem Stripped.of_obtained (stripped : p.Stripped) (apart : p.Apart)
    (obtained : Obtained pageSize pos p o p') : p'.Stripped := by
  obtain ⟨r₁, r₂, s₁, base, _, _, conns, _⟩ := obtained.rings
  intro o' member
  have other : o' ≠ o := by
    rintro rfl
    exact obtained.notMem apart.conns.distinct member
  rw [conns, update_of_ne other]
  exact stripped o' (obtained.kept o' member)

/-- Connections outside the pool change. -/
theorem Stripped.update (stripped : p.Stripped) (pool : p'.connPool = p.connPool)
    (away : ∀ o' ∈ p.connPool.items, p'.conns o' = p.conns o') : p'.Stripped := by
  intro o' member
  rw [pool] at member
  rw [away o' member]
  exact stripped o' member

/-- A connection changes and keeps its ring buffers. -/
theorem rings_setConn (same : ∀ side, c.buffer side = (p.conns o).buffer side) (o' : Nat) :
    ((p.setConn o c).conns o').rings = (p.conns o').rings := by
  change (update p.conns o c o').rings = _
  by_cases self : o' = o
  · subst self
    rw [update_self]
    exact rings_of_buffer same
  · rw [update_of_ne self]

theorem held_setConn (same : ∀ side, c.buffer side = (p.conns o).buffer side) :
    (p.setConn o c).held = p.held :=
  @held_of_rings p (p.setConn o c) rfl (rings_setConn same)

/-- The account of a step: what connections have and what is taken, against what they have then,
what is given back and what is overwritten. -/
def Balances (pageSize : Nat) (pos : 0 < pageSize) (p : Process) (label : Label) (p' : Process) :
    Prop :=
  p.held + (obtained pageSize pos p p' label : Multiset Nat) =
    p'.held + (given p label : Multiset Nat) + (overwritten pageSize pos p label : Multiset Nat)

theorem balances_of_rings (nothing : obtained pageSize pos p p' label = [])
    (none' : given p label = []) (kept : overwritten pageSize pos p label = [])
    (same : p'.held = p.held) : Balances pageSize pos p label p' := by
  rw [Balances, nothing, none', kept, same, Multiset.coe_nil, add_zero, add_zero]

/-- A new entry takes two ring buffers. -/
theorem entered_balances (apart : p.Apart) (stripped : p.Stripped) {fd : Int}
    (absent : entries p.managers (m, key) = none) (new : Obtained pageSize pos p o p')
    (sides : ∀ side, c.buffer side = (p'.conns o).buffer side) :
    Balances pageSize pos p (.get m key fd) ((p'.setConn o c).register m key o) ∧
      ((p'.setConn o c).register m key o).Stripped := by
  obtain ⟨sum, _⟩ := new.held stripped apart.conns.distinct.2
  refine ⟨?_, fun o' member => ?_⟩
  · unfold Balances
    have mine : obtained pageSize pos p ((p'.setConn o c).register m key o) (.get m key fd) =
        (p'.conns o).rings := by
      rw [obtained, absent, entries_register, update_self]
      exact rings_setConn sides o
    rw [mine, ← sum, ← held_setConn sides]
    change _ = (p'.setConn o _).held + 0 + 0
    rw [add_zero, add_zero]
  · exact (rings_setConn sides o').trans (stripped.of_obtained apart new o' member)

/-- A fork takes four ring buffers and drops two. -/
theorem forked_balances (apart : p.Apart) (stripped : p.Stripped) {new : Int} {keyPool : KeyPool}
    {p₁ p₂ : Process} (found : entries p.managers (m, key) = some o)
    (taken : p.forkee pageSize pos m = (f, p₁))
    (fresh : Obtained pageSize pos (p.setKeyPool m keyPool) f p₁)
    (parted : Parted pageSize pos p₁ o f new p₂) :
    Balances pageSize pos p (.fork m key write) (p₂.register m new f) ∧
      (p₂.register m new f).Stripped := by
  have before : (p.setKeyPool m keyPool).Apart := apart.setManager rfl
  have bare : (p.setKeyPool m keyPool).Stripped := stripped
  have other : o ≠ f := apart.ne_of_supplied found fresh.supplied
  obtain ⟨sum, lt, le, _⟩ := fresh.held bare before.conns.distinct.2
  have moved := parted.held ((apart.conns.bound found).trans_le le) lt other
  refine ⟨?_, ?_⟩
  · have lost : overwritten pageSize pos p (.fork m key write) = (p₁.conns f).rings := by
      rw [overwritten, taken]
    have mine : obtained pageSize pos p (p₂.register m new f) (.fork m key write) =
        (p₁.conns f).rings ++ (p₂.conns o).rings := by
      rw [obtained, lost, found]
      rfl
    rw [Balances, mine, lost, ← Multiset.coe_add, ← add_assoc]
    change p.held + _ + _ = p₂.held + 0 + (p₁.conns f).rings
    rw [add_zero, moved, sum]
    rfl
  · obtain ⟨r₁, r₂, s₁, c, forked, _, _, conns, _⟩ := parted.rings
    refine (bare.of_obtained before fresh).update parted.connPool fun o' member => ?_
    have main : o' ≠ o := by
      rintro rfl
      exact apart.conns.taken found (fresh.kept o' member)
    have new' : o' ≠ f := by
      rintro rfl
      exact fresh.notMem before.conns.distinct member
    change p₂.conns o' = _
    rw [conns, update_of_ne main, update_of_ne new']

/-- The account of one step. -/
theorem step_balances (apart : p.Apart) (stripped : p.Stripped)
    (done : p.step pageSize pos label = some p') :
    Balances pageSize pos p label p' ∧ p'.Stripped := by
  cases step_stepped done with
  | @found m o key fd found =>
    refine ⟨balances_of_rings ?_ rfl rfl rfl, stripped⟩
    rw [obtained, found]
    rfl
  | entered absent new sides mine => exact entered_balances apart stripped absent new sides
  | forked found got taken new parted => exact forked_balances apart stripped found taken new parted
  | @absent m key absent =>
    refine ⟨balances_of_rings rfl ?_ rfl rfl, stripped⟩
    rw [given, absent]
    rfl
  | @released m o key p₁ found back =>
    have sum := @held_update p p₁ o _ back.nextConn (apart.conns.bound found) back.conns
    refine ⟨?_, fun o' member => ?_⟩
    · have mine : given p (.release m key) = (p.conns o).rings := by
        rw [given, found]
        rfl
      rw [Balances, mine]
      change p.held + 0 = p₁.held + (p.conns o).rings + 0
      rw [add_zero (p₁.held + _), sum]
      rfl
    · change o' ∈ p₁.connPool.items at member
      change (p₁.conns o').rings = []
      rw [back.connPool] at member
      rw [back.conns]
      by_cases self : o' = o
      · rw [self, update_self]
        rfl
      · rw [update_of_ne self]
        exact stripped o' ((mem_cons.mp member).resolve_left self)
  | used => exact ⟨balances_of_rings rfl rfl rfl rfl, stripped⟩
  | assigned found sides own =>
    refine ⟨balances_of_rings rfl rfl rfl (held_setConn sides), fun o' member => ?_⟩
    rw [rings_setConn sides]
    exact stripped o' member

/-- The step is that of a datagram. -/
def Label.forks : Label → Bool
  | .fork _ _ _ => true
  | _ => false

/-- Each fork overwrites two ring buffers. -/
theorem length_overwritten (apart : p.Apart) (stripped : p.Stripped) (label : Label) :
    (overwritten pageSize pos p label).length = if label.forks then 2 else 0 := by
  cases label with
  | fork m key write =>
    have new : Obtained pageSize pos (p.setKeyPool m (p.managers m).keyPool.get.2) _ _ :=
      getConnection_obtained _
    exact (new.held stripped apart.conns.distinct.2).2.2.2
  | get | release | use | assign => rfl

/-- What holds of every account: apart from the ring buffers that were overwritten, each one that
was taken is given back or a connection has it. -/
structure Accounted (a : Audit) (lost : Multiset Nat) : Prop where
  apart : a.process.Apart
  stripped : a.process.Stripped
  books : (a.got : Multiset Nat) = a.put + a.process.held + lost

/-- What one step loses is what it overwrites. -/
theorem Accounted.step (accounted : Accounted a lost) (done : a.step pageSize pos label = some a') :
    Accounted a' (overwritten pageSize pos a.process label + lost) := by
  obtain ⟨p', stepped, same⟩ := bind_eq_some_iff.mp done
  cases same
  obtain ⟨balances, stripped⟩ := step_balances accounted.apart accounted.stripped stepped
  refine ⟨accounted.apart.step stepped, stripped, ?_⟩
  dsimp only
  rw [← Multiset.coe_add, ← Multiset.coe_add, accounted.books]
  unfold Balances at balances
  calc (obtained pageSize pos a.process p' label : Multiset Nat) +
        (a.put + a.process.held + lost)
      = a.process.held + obtained pageSize pos a.process p' label + a.put + lost := by ac_rfl
    _ = _ := by
        rw [balances]
        ac_rfl

/-- A run loses two ring buffers with each fork. -/
theorem Accounted.run (accounted : Accounted a lost)
    (ran : Gain.run (Audit.step pageSize pos) ls a = some a') :
    ∃ more : Multiset Nat, Accounted a' (more + lost) ∧ more.card = 2 * ls.countP Label.forks := by
  induction ls generalizing a lost with
  | nil =>
    cases ran
    refine ⟨0, ?_, rfl⟩
    rw [zero_add]
    exact accounted
  | cons label ls ih =>
    obtain ⟨a₁, done, ran⟩ := bind_eq_some_iff.mp ran
    obtain ⟨more, after, card⟩ := ih (accounted.step done) ran
    refine ⟨more + overwritten pageSize pos a.process label, ?_, ?_⟩
    · rw [add_assoc]
      exact after
    · rw [Multiset.card_add, card, Multiset.coe_card,
        length_overwritten accounted.apart accounted.stripped, countP_cons]
      split_ifs <;> omega

/-- Every connection that has a ring buffer is in a table. -/
def Listed (p : Process) : Prop :=
  ∀ o, (p.conns o).rings ≠ [] → ∃ x, entries p.managers x = some o

open Classical in
/-- The ring buffers of the connections in the tables. -/
noncomputable def live (p : Process) : Multiset Nat :=
  ∑ o ∈ (Finset.range p.nextConn).filter (fun o => ∃ x, entries p.managers x = some o),
    ((p.conns o).rings : Multiset Nat)

theorem live_le_held (p : Process) : p.live ≤ p.held := by
  classical
  exact Finset.sum_le_sum_of_subset (Finset.filter_subset _ _)

theorem Listed.live_eq_held (listed : p.Listed) : p.live = p.held := by
  classical
  apply Finset.sum_filter_of_ne
  intro o _ some'
  apply listed o
  intro nothing
  rw [nothing] at some'
  exact some' rfl

/-- Without forks what has ring buffers is in a table. -/
theorem Listed.step (listed : p.Listed) (stays : label.forks = false)
    (done : p.step pageSize pos label = some p') : p'.Listed := by
  cases step_stepped done with
  | found | absent | used => exact listed
  | @entered m o key fd c p₁ absent new sides mine =>
    obtain ⟨_, _, _, _, _, _, conns, _⟩ := new.rings
    intro o' some'
    rw [entries_register]
    by_cases self : o' = o
    · exact ⟨(m, key), by rw [update_self, self]⟩
    · have before : (p.conns o').rings = (p₁.conns o').rings := by
        rw [conns, update_of_ne self]
      obtain ⟨x, found⟩ := listed o' (by
        rw [before, ← rings_setConn sides o']
        exact some')
      have other : x ≠ (m, key) := by
        rintro rfl
        cases absent.symm.trans found
      refine ⟨x, ?_⟩
      rw [update_of_ne other]
      change entries p₁.managers x = _
      rw [new.managers]
      exact found
  | forked => cases stays
  | @released m o key p₁ found back =>
    intro o' some'
    change (p₁.conns o').rings ≠ [] at some'
    rw [back.conns] at some'
    by_cases self : o' = o
    · rw [self, update_self] at some'
      exact absurd rfl some'
    · rw [update_of_ne self] at some'
      obtain ⟨x, there⟩ := listed o' some'
      have other : x ≠ (m, key) := by
        rintro rfl
        exact self (Option.some.inj (there.symm.trans found))
      refine ⟨x, ?_⟩
      rw [entries_setManager, back.managers, entries_unregister, update_of_ne other]
      · exact there
      · rfl
  | assigned found sides own =>
    intro o' some'
    rw [rings_setConn sides] at some'
    exact listed o' some'

/-- A ring buffer that is handed out is not one that a connection has, and those stay apart from
the pool. -/
theorem ne_of_got {P : Type} {holds : P → Option Nat} {x : P} {s s' : RingStore} {a : Nat}
    (holding : Holding holds s.pool.items s.nextRing) (got : s.Got pageSize pos r s')
    (here : holds x = some a) : r ≠ a ∧ Holding holds s'.pool.items s'.nextRing := by
  have supplied := got.supplied.add ((holds x).toList : Multiset Nat)
  refine ⟨?_, Holding.exchange (x := x) holding (fun _ _ => rfl) ?_⟩
  · rintro rfl
    obtain ⟨nodup, _⟩ := supplied.distinct (by
      rw [add_comm]
      exact holding.distinct_add x)
    rw [here, add_assoc] at nodup
    have listed : (r ::ₘ ((s'.pool.items : Multiset Nat) + ([r] : List Nat))).Nodup := nodup
    exact (Multiset.nodup_cons.mp listed).1
      (Multiset.mem_add.mpr (.inr (mem_singleton_self r)))
  · rw [add_comm, add_comm _ (s'.pool.items : Multiset Nat)]
    exact supplied.le_trans (Multiset.add_le_add_right (Multiset.le_add_left _ _))

theorem mem_rings : r ∈ c.rings ↔ ∃ side, c.buffer side = some r := by
  rw [ConnObject.rings, mem_append, mem_toList, mem_toList]
  constructor
  · rintro (inbound | outbound)
    · exact ⟨.inbound, inbound⟩
    · exact ⟨.outbound, outbound⟩
  · rintro ⟨side, here⟩
    cases side with
    | inbound => exact .inl here
    | outbound => exact .inr here

/-- No connection has what another one overwrote. -/
theorem Parted.forgets (parted : Parted pageSize pos p o f key p') (other : o ≠ f)
    (holding : Holding (buffers p.conns) p.rings.pool.items p.rings.nextRing)
    (here : r ∈ (p.conns f).rings) (x : Nat × Side) : buffers p'.conns x ≠ some r := by
  obtain ⟨r₁, r₂, s₁, c, forked, first, second, conns, sides, _, inbound, outbound, _⟩ :=
    parted.rings
  obtain ⟨side, here⟩ := mem_rings.mp here
  replace here : buffers p.conns (f, side) = some r := here
  obtain ⟨one, holding₁⟩ := ne_of_got holding first here
  obtain ⟨two, _⟩ := ne_of_got holding₁ second here
  obtain ⟨o', side'⟩ := x
  intro there
  rw [buffers, conns] at there
  by_cases main : o' = o
  · rw [main, update_self] at there
    cases side' with
    | inbound => exact one (Option.some.inj (inbound.symm.trans there))
    | outbound => exact two (Option.some.inj (outbound.symm.trans there))
  · rw [update_of_ne main] at there
    by_cases new : o' = f
    · rw [new, update_self] at there
      have same : buffers p.conns (o, side') = some r := (sides side').symm.trans there
      exact other (congrArg Prod.fst (holding.apart same here))
    · rw [update_of_ne new] at there
      exact new (congrArg Prod.fst (holding.apart (x := (o', side')) there here))

/-- After a fork no connection has the two ring buffers that came with the forked one. -/
theorem fork_forgets (apart : p.Apart) (done : p.step pageSize pos (.fork m key write) = some p')
    (lost : r ∈ overwritten pageSize pos p (.fork m key write)) (x : Nat × Side) :
    buffers p'.conns x ≠ some r := by
  cases step_stepped done with
  | @forked _ o f _ _ _ keyPool p₁ p₂ found got taken new parted =>
    have before : (p.setKeyPool m keyPool).Apart := apart.setManager rfl
    rw [overwritten, taken] at lost
    exact parted.forgets (apart.ne_of_supplied found new.supplied) (before.obtained_rings new).1
      lost x

/-- A process that has not started, with an empty account. -/
def Audit.start (pageSize : Nat) (conns rings : Nat → Option Nat) (mems : Nat → Nat → Option Nat)
    (calibration : Nat → Option (Fin 15 × Fin 15)) : Audit :=
  { process := Process.start pageSize conns rings mems calibration }

/-- Each ring buffer that was taken has been given back, or a connection in a table has it. -/
def Audit.Conserved (a : Audit) : Prop := (a.got : Multiset Nat) = a.put + a.process.live

variable {conns rings : Nat → Option Nat} {mems : Nat → Nat → Option Nat}
  {calibration : Nat → Option (Fin 15 × Fin 15)}

theorem start_accounted (conns rings : Nat → Option Nat) (mems : Nat → Nat → Option Nat)
    (calibration : Nat → Option (Fin 15 × Fin 15)) :
    Accounted (.start pageSize conns rings mems calibration) 0 :=
  ⟨start_apart conns rings mems calibration, forall_mem_nil _, rfl⟩

theorem run_listed (listed : a.process.Listed) (ran : run (Audit.step pageSize pos) ls a = some a')
    (none' : ∀ label ∈ ls, label.forks = false) : a'.process.Listed := by
  have preserved : ∀ (a : Audit) label a', label.forks = false →
      a.step pageSize pos label = some a' → a.process.Listed → a'.process.Listed := by
    intro a label a' stays done listed
    obtain ⟨p', stepped, same⟩ := bind_eq_some_iff.mp done
    cases same
    exact listed.step stays stepped
  exact invariant_of_run preserved ran (along_of_forall none') listed

/-- The ring buffers of a run are all accounted for exactly when no datagram has been forked, and
every fork forgets two of the ring buffers it takes. -/
theorem run_conserved_iff {ls : List Label} {a : Audit}
    (ran : run (Audit.step pageSize pos) ls (.start pageSize conns rings mems calibration) =
      some a) :
    (a.Conserved ↔ ∀ label ∈ ls, label.forks = false) ∧
    a.got.length = a.put.length + a.process.held.card + 2 * ls.countP Label.forks ∧
    ∀ m key write a', a.step pageSize pos (.fork m key write) = some a' →
      (overwritten pageSize pos a.process (.fork m key write)).length = 2 ∧
      ∀ r ∈ overwritten pageSize pos a.process (.fork m key write),
        r ∈ obtained pageSize pos a.process a'.process (.fork m key write) ∧
        ∀ x, buffers a'.process.conns x ≠ some r := by
  obtain ⟨lost, accounted, card⟩ := (start_accounted conns rings mems calibration).run ran
  rw [add_zero] at accounted
  have count : a.got.length = a.put.length + a.process.held.card + 2 * ls.countP Label.forks := by
    rw [← card]
    have sizes := congrArg Multiset.card accounted.books
    simpa only [Multiset.card_add, Multiset.coe_card] using sizes
  refine ⟨⟨fun conserved => ?_, fun none' => ?_⟩, count, fun m key write a' done => ⟨?_, ?_⟩⟩
  · have sizes := congrArg Multiset.card conserved
    rw [Multiset.card_add, Multiset.coe_card, Multiset.coe_card] at sizes
    have fewer := Multiset.card_le_card (live_le_held a.process)
    have zero : ls.countP Label.forks = 0 := by omega
    intro label member
    have := countP_eq_zero.mp zero label member
    exact Bool.eq_false_iff.mpr this
  · have listed : a.process.Listed := run_listed (fun o some' => absurd rfl some') ran none'
    have zero : ls.countP Label.forks = 0 := by
      apply countP_eq_zero.mpr
      intro label member
      exact Bool.eq_false_iff.mp (none' label member)
    rw [zero, Nat.mul_zero, Multiset.card_eq_zero] at card
    rw [Audit.Conserved, listed.live_eq_held, accounted.books, card, add_zero]
  · exact length_overwritten accounted.apart accounted.stripped _
  · intro r lost
    refine ⟨mem_append_left _ lost, ?_⟩
    obtain ⟨p', stepped, same⟩ := bind_eq_some_iff.mp done
    cases same
    exact fork_forgets accounted.apart stepped lost

/-- Pools that hand out what was put back last. -/
def Audit.recycling : Audit :=
  .start 4096 (fun _ => some 0) (fun _ => some 0) (fun _ _ => some 0) fun _ => none

/-- Two workers take connections, and one of them is released and taken again. -/
theorem run_conserved_iff_reused : ∃ a,
    run (Audit.step 4096 (by decide)) [.get 0 5 5, .get 1 6 6, .release 0 5, .get 1 7 7]
      Audit.recycling = some a ∧ a.got.length = 6 ∧ a.put.length = 2 ∧ a.Conserved := by
  have seen : (run (Audit.step 4096 (by decide))
      [.get 0 5 5, .get 1 6 6, .release 0 5, .get 1 7 7] Audit.recycling).map
        (fun a => (a.got.length, a.put.length)) = some (6, 2) := by decide +kernel
  obtain ⟨a, ran, seen⟩ := map_eq_some_iff.mp seen
  obtain ⟨got, put⟩ := Prod.mk.inj seen
  refine ⟨a, ran, got, put, (run_conserved_iff ran).1.mpr ?_⟩
  decide

/-- A datagram is received, and the connection forked for it is released. -/
def answered : List Label :=
  [.get 0 1 9, .assign 0 1 { fd := 9, msgHdr := some ⟨⟨0, 0⟩, 4096⟩, rawSockaddr := some (some 7) },
    .fork 0 1 true, .release 0 2]

/-- Of six ring buffers two have been given back and two belong to the main connection. -/
theorem run_not_conserved : ∃ a,
    run (Audit.step 4096 (by decide)) answered Audit.recycling = some a ∧
    a.got.length = 6 ∧ a.put.length = 2 ∧ a.process.held.card = 2 ∧ ¬ a.Conserved := by
  have seen : (run (Audit.step 4096 (by decide)) answered Audit.recycling).map
      (fun a => (a.got.length, a.put.length, a.process.held.card)) = some (6, 2, 2) := by
    decide +kernel
  obtain ⟨a, ran, seen⟩ := map_eq_some_iff.mp seen
  simp only [Prod.mk.injEq] at seen
  obtain ⟨got, put, held⟩ := seen
  refine ⟨a, ran, got, put, held, fun conserved => ?_⟩
  have sizes := congrArg Multiset.card conserved
  rw [Multiset.card_add, Multiset.coe_card, Multiset.coe_card] at sizes
  have fewer := Multiset.card_le_card (live_le_held a.process)
  omega

end Process

end Gain
