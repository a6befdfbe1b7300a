import Gain.Process.Separation

/-! # What is left in a recycled connection

`putConnection` resets all fields of a connection but its addresses and its next
asynchronous operation. A connection that is given back without these is like a new
one when it is taken again, and its ring buffers are empty.
-/

namespace Gain

open Function List Option

/-- The ring buffer is empty and its indices are at the start. -/
def RingBuffer.Emptied (rb : RingBuffer) : Prop := rb.isEmpty = true ∧ rb.r = 0 ∧ rb.w = 0

theorem RingBuffer.newMagicBuffer_emptied {σ : Type} (source : MemSource σ) (size : Int) (s : σ) :
    (newMagicBuffer source size s).1.Emptied := by
  unfold newMagicBuffer
  split_ifs <;> exact ⟨rfl, rfl, rfl⟩

namespace Process

variable {pageSize : Nat} {pos : 0 < pageSize} {p p' : Process} {o m : Nat} {key : Int}
  {r r₁ r₂ : Nat} {s s₁ s₂ : RingStore}

/-- Two ring buffers are handed out empty. -/
theorem emptied_of_got (first : s.Got pageSize pos r₁ s₁) (second : s₁.Got pageSize pos r₂ s₂)
    (distinct : Supplied.Distinct s.pool.items s.nextRing)
    (all : ∀ r ∈ s.pool.items, (s.heap r).Emptied) :
    (s₂.heap r₁).Emptied ∧ (s₂.heap r₂).Emptied ∧ ∀ r ∈ s₂.pool.items, (s₂.heap r).Emptied := by
  obtain ⟨bound, old⟩ := first.bounds distinct
  obtain ⟨one, rest⟩ := first.all distinct.2 all (RingBuffer.newMagicBuffer_emptied _ _ _)
  obtain ⟨two, rest⟩ := second.all bound rest (RingBuffer.newMagicBuffer_emptied _ _ _)
  refine ⟨?_, two, rest⟩
  rw [second.heap_of_lt old]
  exact one

/-- What is in the pools is as good as new. -/
structure Recycled (p : Process) : Prop where
  apart : p.Apart
  conns : ∀ o ∈ p.connPool.items, p.conns o = {}
  rings : ∀ r ∈ p.rings.pool.items, (p.rings.heap r).Emptied

theorem Obtained.notMem (obtained : Obtained pageSize pos p o p')
    (distinct : Supplied.Distinct p.connPool.items p.nextConn) : o ∉ p'.connPool.items := by
  obtain ⟨nodup, _⟩ := obtained.supplied.distinct distinct
  have listed : (o :: p'.connPool.items).Nodup := nodup
  exact (nodup_cons.mp listed).1

namespace Recycled

/-- A connection that is taken is like a new one. -/
theorem obtained (recycled : p.Recycled) (obtained : Obtained pageSize pos p o p') :
    ∃ r₁ r₂, p'.conns = update p.conns o
        { inboundBuffer := some r₁, outboundBuffer := some r₂ } ∧
      (p'.rings.heap r₁).Emptied ∧ (p'.rings.heap r₂).Emptied ∧
      (∀ o ∈ p'.connPool.items, p'.conns o = {}) ∧
      ∀ r ∈ p'.rings.pool.items, (p'.rings.heap r).Emptied := by
  obtain ⟨r₁, r₂, s₁, base, first, second, conns, old⟩ := obtained.rings
  obtain ⟨one, two, rest⟩ :=
    emptied_of_got first second recycled.apart.rings.distinct recycled.rings
  have blank : base = {} := by
    rcases old with ⟨rfl, member, _⟩ | ⟨rfl, _⟩
    · exact recycled.conns o member
    · rfl
  subst blank
  refine ⟨r₁, r₂, conns, one, two, fun o' member => ?_, rest⟩
  have other : o' ≠ o := by
    rintro rfl
    exact obtained.notMem recycled.apart.conns.distinct member
  rw [conns, update_of_ne other]
  exact recycled.conns o' (obtained.kept o' member)

/-- Connections that are not in the pool change. -/
theorem update_conns (all : ∀ o ∈ p.connPool.items, p.conns o = {}) {c : ConnObject}
    (away : o ∉ p.connPool.items) : ∀ o' ∈ p.connPool.items, update p.conns o c o' = {} := by
  intro o' member
  have other : o' ≠ o := by
    rintro rfl
    exact away member
  rw [update_of_ne other]
  exact all o' member

end Recycled

/-- A connection is only given back without addresses and without a next operation. -/
def Forgotten (p : Process) : Label → Prop
  | .release m key => ∀ o, (p.managers m).connections.lookup key = some o →
      (p.conns o).localAddr = none ∧ (p.conns o).remoteAddr = none ∧
        (p.conns o).nextAsyncOp = .noOp
  | _ => True

instance (p : Process) : (label : Label) → Decidable (p.Forgotten label)
  | .release m key =>
    decidable_of_iff (∀ o ∈ (p.managers m).connections.lookup key, (p.conns o).localAddr = none ∧
      (p.conns o).remoteAddr = none ∧ (p.conns o).nextAsyncOp = .noOp) Iff.rfl
  | .get _ _ _ | .fork _ _ _ | .use _ _ _ _ | .assign _ _ _ => isTrue trivial

namespace Recycled

/-- A released connection goes back as good as new. -/
theorem released (recycled : p.Recycled) (forgotten : p.Forgotten (.release m key))
    (found : entries p.managers (m, key) = some o) (back : Returned (p.unregister m key) o p') :
    (∀ o ∈ p'.connPool.items, p'.conns o = {}) ∧
      ∀ r ∈ p'.rings.pool.items, (p'.rings.heap r).Emptied := by
  obtain ⟨locally, remotely, operation⟩ := forgotten o found
  obtain ⟨r₁, r₂, s₁, inbound, outbound, first, second⟩ := back.rings
  have here₁ : buffers p.conns (o, .inbound) = some r₁ := inbound
  have here₂ : buffers p.conns (o, .outbound) = some r₂ := outbound
  have away : r₂ ∉ s₁.pool.items := by
    intro member
    have pooled : r₂ = r₁ ∨ r₂ ∈ p.rings.pool.items := by
      cases first with
      | kept _ => exact mem_cons.mp member
      | dropped _ => exact Or.inr member
    rcases pooled with rfl | old
    · cases recycled.apart.rings.apart here₁ here₂
    · exact recycled.apart.rings.taken here₂ old
  have emptied := first.all (recycled.apart.rings.taken here₁) recycled.rings
    fun rb _ => ⟨rfl, rfl, rfl⟩
  refine ⟨?_, second.all away emptied fun rb _ => ⟨rfl, rfl, rfl⟩⟩
  intro o' member
  rw [back.connPool] at member
  rw [back.conns]
  by_cases self : o' = o
  · subst self
    rw [update_self]
    change ({ localAddr := (p.conns o').localAddr, remoteAddr := (p.conns o').remoteAddr
              nextAsyncOp := (p.conns o').nextAsyncOp } : ConnObject) = {}
    rw [locally, remotely, operation]
  · rw [update_of_ne self]
    exact recycled.conns o' ((SyncPool.mem_put.mp member).resolve_left self)

/-- Every step keeps the pools as good as new. -/
theorem step {label : Label} (recycled : p.Recycled) (forgotten : p.Forgotten label)
    (done : p.step pageSize pos label = some p') : p'.Recycled := by
  have apart := recycled.apart.step done
  cases step_stepped done with
  | found | absent => exact recycled
  | entered absent obtained sides mine =>
    obtain ⟨r₁, r₂, conns, _, _, blank, rings⟩ := recycled.obtained obtained
    have away := obtained.notMem recycled.apart.conns.distinct
    exact ⟨apart, update_conns blank away, rings⟩
  | @forked m o f new key write keyPool p₁ p₂ found got taken obtained parted =>
    have before : (p.setKeyPool m keyPool).Recycled :=
      ⟨recycled.apart.setManager rfl, recycled.conns, recycled.rings⟩
    have away := obtained.notMem before.apart.conns.distinct
    have main : o ∉ p₁.connPool.items :=
      fun member => recycled.apart.conns.taken found (obtained.kept o member)
    have distinct := (before.apart.obtained_rings obtained).1.distinct
    obtain ⟨_, _, _, _, _, blank, rings⟩ := before.obtained obtained
    obtain ⟨r₁, r₂, s₁, c, forked, first, second, conns, _⟩ := parted.rings
    refine ⟨apart, ?_, (emptied_of_got first second distinct rings).2.2⟩
    change ∀ o' ∈ p₂.connPool.items, p₂.conns o' = {}
    rw [parted.connPool, conns]
    exact update_conns (p := p₁.setConn f forked) (update_conns blank away) main
  | released found back =>
    obtain ⟨conns, rings⟩ := recycled.released forgotten found back
    exact ⟨apart, conns, rings⟩
  | @used m o r key side deed rings here used =>
    obtain ⟨⟨rb, mem⟩, _, last⟩ := bind_eq_some_iff.mp used
    cases last
    refine ⟨apart, recycled.conns, fun r' member => ?_⟩
    have other : r' ≠ r := by
      rintro rfl
      exact recycled.apart.rings.taken here member
    change (update p.rings.heap r rb r').Emptied
    rw [update_of_ne other]
    exact recycled.rings r' member
  | assigned found sides own =>
    exact ⟨apart, update_conns recycled.conns (recycled.apart.conns.taken found), recycled.rings⟩

end Recycled

/-- In every run in which connections are given back without addresses and without a next
operation, one that is taken next has the fields of a new one and two empty ring buffers. -/
theorem run_recycled_of_forgotten {conns rings : Nat → Option Nat} {mems : Nat → Nat → Option Nat}
    {calibration : Nat → Option (Fin 15 × Fin 15)} {ls : List Label}
    (ran : run (Process.step pageSize pos) ls
      (start pageSize conns rings mems calibration) = some p)
    (along : Along (Process.step pageSize pos) Forgotten ls
      (start pageSize conns rings mems calibration)) :
    ∃ r₁ r₂, (p.getConnection pageSize pos).2.conns (p.getConnection pageSize pos).1 =
        { inboundBuffer := some r₁, outboundBuffer := some r₂ } ∧
      ((p.getConnection pageSize pos).2.rings.heap r₁).Emptied ∧
      ((p.getConnection pageSize pos).2.rings.heap r₂).Emptied := by
  have preserved : ∀ p label p', Forgotten p label → Process.step pageSize pos p label = some p' →
      p.Recycled → p'.Recycled :=
    fun p label p' forgotten done recycled => recycled.step forgotten done
  have initial : (start pageSize conns rings mems calibration).Recycled :=
    ⟨start_apart conns rings mems calibration, fun o member => absurd member not_mem_nil,
      fun r member => absurd member not_mem_nil⟩
  have recycled : p.Recycled := invariant_of_run preserved ran along initial
  obtain ⟨r₁, r₂, fields, one, two, _⟩ := recycled.obtained (getConnection_obtained p)
  refine ⟨r₁, r₂, ?_, one, two⟩
  rw [fields, update_self]

/-- A connection is used and given back. -/
def served (c : ConnObject) : List Label :=
  [.get 0 5 5, .use 0 5 .outbound (.op (.write [65])), .assign 0 5 c, .release 0 5]

theorem run_recycled_of_forgotten_served : ∃ p,
    run (Process.step 4096 (by decide)) (served { state := .close, closed := true, ctx := some 3 })
      recycling = some p ∧ p.connPool.items = [0] ∧
    ∃ r₁ r₂, (p.getConnection 4096 (by decide)).2.conns (p.getConnection 4096 (by decide)).1 =
      { inboundBuffer := some r₁, outboundBuffer := some r₂ } := by
  have along : Along (Process.step 4096 (by decide)) Forgotten
      (served { state := .close, closed := true, ctx := some 3 }) recycling := by decide +kernel
  obtain ⟨p, ran, pooled⟩ : ∃ p, run (Process.step 4096 (by decide))
      (served { state := .close, closed := true, ctx := some 3 }) recycling = some p ∧
      p.connPool.items = [0] := by
    exact exists_run_from (by decide +kernel)
  obtain ⟨r₁, r₂, fields, _⟩ := run_recycled_of_forgotten ran along
  exact ⟨p, ran, pooled, r₁, r₂, fields⟩

/-- The addresses and the last operation of a connection are those of the next one. -/
theorem run_not_recycled : ∃ p c,
    run (Process.step 4096 (by decide))
      (served { localAddr := some 1, remoteAddr := some 7, nextAsyncOp := .readOp }) recycling =
        some p ∧
    (p.getConnection 4096 (by decide)).2.conns (p.getConnection 4096 (by decide)).1 = c ∧
    c.localAddr = some 1 ∧ c.remoteAddr = some 7 ∧ c.nextAsyncOp = .readOp := by
  obtain ⟨p, ran, seen⟩ : ∃ p, run (Process.step 4096 (by decide))
      (served { localAddr := some 1, remoteAddr := some 7, nextAsyncOp := .readOp }) recycling =
        some p ∧ (fun c : ConnObject => c.localAddr = some 1 ∧ c.remoteAddr = some 7 ∧
          c.nextAsyncOp = .readOp)
        ((p.getConnection 4096 (by decide)).2.conns (p.getConnection 4096 (by decide)).1) := by
    exact exists_run_from (by decide +kernel)
  exact ⟨p, _, ran, rfl, seen⟩

end Process

end Gain
