import Gain.Buffer.Regions
import Gain.Foundation.Holding
import Gain.Worker.State

/-! # Ring buffers as objects

The pool of ring buffers with the ring buffers as objects, so that two pointers may
or may not be the same. A ring buffer is named by a number, and none is used for a
second time. When a `Put` calibrates the pool and what it then becomes is left
open, as it is for the pool of the workers.
-/

namespace Gain

open Function Option VirtualMem

variable {rb : RingBuffer}

namespace RingBuffer

/-- What the holder of a ring buffer does with it. -/
inductive Deed where
  | op (op : Op)
  | readFrom (chunks : List (List UInt8)) (last : List UInt8) (final : Error)
  | writeTo (written : Int) (err : Option Error)

namespace Deed

variable (pageSize : Nat) (pos : 0 < pageSize)

def exec (rb : RingBuffer) (l : Ledger) : Deed → Option (RingBuffer × Ledger)
  | .op o => (o.exec (Ledger.source pageSize pos) rb l).map Prod.snd
  | .readFrom chunks last final =>
    (rb.readFrom (Ledger.source pageSize pos) chunks last final l).map Prod.snd
  | .writeTo written err => (rb.writeTo written err).map fun r => (r.2, l)

variable {pageSize pos}

/-- A use resizes the ring buffer or leaves it. -/
theorem exec_resizes {deed : Deed} {rb' : RingBuffer} {l l' : Ledger}
    (done : deed.exec pageSize pos rb l = some (rb', l')) :
    Resizes (Ledger.source pageSize pos) rb l rb' l' := by
  cases deed with
  | op op =>
    obtain ⟨⟨reply, rb₁, l₁⟩, ran, last⟩ := map_eq_some_iff.mp done
    cases last
    exact (Op.exec_resized ran).resizes
  | readFrom chunks last final =>
    obtain ⟨⟨reply, rb₁, l₁⟩, ran, last⟩ := map_eq_some_iff.mp done
    cases last
    exact (readFrom_reads ran).resizes
  | writeTo written err =>
    obtain ⟨⟨reply, rb₁⟩, ran, last⟩ := map_eq_some_iff.mp done
    cases last
    exact (writeTo_resized ran).resizes

end Deed

end RingBuffer

structure RingStore where
  heap : Nat → RingBuffer
  nextRing : Nat
  pool : SyncPool Nat
  defaultSize : Int
  maxSize : Int
  calibration : Nat → Option (Fin 15 × Fin 15)
  puts : Nat
  mem : Ledger

namespace RingStore

variable (pageSize : Nat) (pos : 0 < pageSize)

/-- `NewRingBufferPool`, with the answers of the pools. -/
def start (rings : Nat → Option Nat) (mems : Nat → Nat → Option Nat)
    (calibration : Nat → Option (Fin 15 × Fin 15)) : RingStore where
  heap := fun _ => ⟨none, 0, 0, 0, true⟩
  nextRing := 0
  pool := .empty rings
  defaultSize := pageSize
  maxSize := 0
  calibration := calibration
  puts := 0
  mem := ⟨⟨fun k => .empty (mems k), 0⟩, [], []⟩

/-- `ringbuffer.Get` -/
def get (s : RingStore) : Nat × RingStore :=
  match s.pool.get with
  | (some r, pool) => (r, { s with pool := pool })
  | (none, pool) =>
    let (rb, mem) := RingBuffer.newMagicBuffer (Ledger.source pageSize pos) s.defaultSize s.mem
    (s.nextRing, { s with
      heap := update s.heap s.nextRing rb, nextRing := s.nextRing + 1
      pool := pool, mem := mem })

/-- `ringbuffer.Put`, which panics on nil. -/
def put (s : RingStore) (ptr : Option Nat) : Option RingStore := do
  let r ← ptr
  let rb ← (s.heap r).zeroes
  let (defaultSize, maxSize) := match s.calibration s.puts with
    | some (i, j) => (BufferPool.callSize i, BufferPool.callSize j)
    | none => (s.defaultSize, s.maxSize)
  let s := { s with
    heap := update s.heap r rb
    defaultSize := defaultSize, maxSize := maxSize, puts := s.puts + 1 }
  if maxSize = 0 ∨ rb.cap ≤ maxSize then
    return { s with heap := update s.heap r rb.reset, pool := s.pool.put r }
  else return s

/-- The holder of a ring buffer uses it. -/
def use (s : RingStore) (r : Nat) (deed : RingBuffer.Deed) : Option RingStore := do
  let (rb, mem) ← deed.exec pageSize pos (s.heap r) s.mem
  return { s with heap := update s.heap r rb, mem := mem }

variable {pageSize pos} {s s' : RingStore} {r : Nat} {property : RingBuffer → Prop}

/-- The region behind a ring buffer. -/
def region (s : RingStore) (r : Nat) : Option Nat := (s.heap r).vm.map VirtualMem.addr

/-- No two ring buffers have the same region, and none of their regions is free. -/
def Separate (s : RingStore) : Prop :=
  Holding s.region s.mem.pool.regions s.mem.pool.nextAddr

theorem start_separate (rings : Nat → Option Nat) (mems : Nat → Nat → Option Nat)
    (calibration : Nat → Option (Fin 15 × Fin 15)) :
    (start pageSize rings mems calibration).Separate := by
  have none' : (start pageSize rings mems calibration).mem.pool.regions = 0 := by
    refine Finset.sum_eq_zero fun k _ => ?_
    rfl
  unfold Separate
  rw [none']
  exact .empty

theorem region_toList (s : RingStore) (r : Nat) :
    ((s.region r).toList : Multiset Nat) = (s.heap r).regions := by
  rw [region, RingBuffer.regions, toList_map]

/-- One ring buffer exchanges its region with the free ones. -/
theorem Separate.update (separate : s.Separate) {mem : Ledger}
    (supplied : Supplied ((s.heap r).regions + s.mem.pool.regions) s.mem.pool.nextAddr
      (rb.regions + mem.pool.regions) mem.pool.nextAddr)
    (heap : s'.heap = update s.heap r rb) (same : s'.mem = mem) : s'.Separate := by
  subst same
  refine Holding.exchange (x := r) separate ?_ ?_
  · intro y ne
    rw [region, heap, update_of_ne ne, region]
  · rw [region_toList, region_toList, heap, update_self]
    exact supplied

/-- A ring buffer is handed out: one of the pool, or a new one. -/
inductive Got (pageSize : Nat) (pos : 0 < pageSize) (s : RingStore) : Nat → RingStore → Prop
  | pooled {r : Nat} {pool : SyncPool Nat} (got : s.pool.get = (some r, pool)) :
      Got pageSize pos s r { s with pool := pool }
  | made {pool : SyncPool Nat} {rb : RingBuffer} {mem : Ledger} (got : s.pool.get = (none, pool))
      (new : RingBuffer.newMagicBuffer (Ledger.source pageSize pos) s.defaultSize s.mem =
        (rb, mem)) :
      Got pageSize pos s s.nextRing { s with
        heap := update s.heap s.nextRing rb, nextRing := s.nextRing + 1
        pool := pool, mem := mem }

theorem get_got (s : RingStore) :
    Got pageSize pos s (s.get pageSize pos).1 (s.get pageSize pos).2 := by
  unfold get
  rcases got : s.pool.get with ⟨answer, pool⟩
  cases answer with
  | some r => exact .pooled got
  | none => exact .made got rfl

theorem get_twice (s : RingStore) : ∃ r₁ s₁ r₂ s₂, s.get pageSize pos = (r₁, s₁) ∧
    s₁.get pageSize pos = (r₂, s₂) ∧ s.Got pageSize pos r₁ s₁ ∧ s₁.Got pageSize pos r₂ s₂ :=
  ⟨_, _, _, _, rfl, rfl, s.get_got, get_got _⟩

variable (got : Got pageSize pos s r s')
include got

/-- The names of ring buffers: the one handed out was free or is new. -/
theorem Got.supplied :
    Supplied (s.pool.items : Multiset Nat) s.nextRing (([r] : Multiset Nat) + s'.pool.items)
      s'.nextRing := by
  cases got with
  | pooled got =>
    refine Supplied.of_le (le_of_eq ?_)
    exact Multiset.coe_eq_coe.mpr (SyncPool.get_perm got)
  | made got new =>
    change Supplied _ _ _ (s.nextRing + 1)
    rw [SyncPool.get_none got]
    exact Supplied.one (s.pool.items : Multiset Nat) s.nextRing

/-- The free ring buffers and the one handed out are old ones then. -/
theorem Got.bounds (distinct : Supplied.Distinct s.pool.items s.nextRing) :
    (∀ r ∈ s'.pool.items, r < s'.nextRing) ∧ r < s'.nextRing := by
  obtain ⟨_, bound⟩ := got.supplied.distinct distinct
  exact ⟨fun r member => bound r (Multiset.mem_add.mpr (Or.inr member)),
    bound r (Multiset.mem_add.mpr (Or.inl (List.mem_singleton_self r)))⟩

theorem Got.separate (separate : s.Separate) : s'.Separate := by
  cases got with
  | pooled got => exact separate
  | @made pool rb mem got new =>
    have supplied := @RingBuffer.newMagicBuffer_supplied pageSize pos s.defaultSize s.mem
    rw [new] at supplied
    exact separate.update ((Supplied.of_le (Multiset.le_add_left _ _)).trans supplied) rfl rfl

/-- A ring buffer that was there stays as it is. -/
theorem Got.heap_of_lt {r' : Nat} (old : r' < s.nextRing) : s'.heap r' = s.heap r' := by
  cases got with
  | pooled got => rfl
  | made got new => exact update_of_ne old.ne ..

/-- What all free ring buffers and all new ones have, one that is handed out has. -/
theorem Got.all (bound : ∀ r ∈ s.pool.items, r < s.nextRing)
    (all : ∀ r ∈ s.pool.items, property (s.heap r))
    (made : property
      (RingBuffer.newMagicBuffer (Ledger.source pageSize pos) s.defaultSize s.mem).1) :
    property (s'.heap r) ∧ ∀ r ∈ s'.pool.items, property (s'.heap r) := by
  cases got with
  | pooled got =>
    obtain ⟨member, rest⟩ := SyncPool.get_some got
    exact ⟨all r member, fun r' kept => all r' (rest r' kept)⟩
  | @made pool rb mem got new =>
    rw [new] at made
    refine ⟨?_, fun r' kept => ?_⟩
    · change property (update s.heap s.nextRing rb s.nextRing)
      rw [update_self]
      exact made
    · replace kept : r' ∈ pool.items := kept
      rw [SyncPool.get_none got] at kept
      change property (update s.heap s.nextRing rb r')
      rw [update_of_ne (bound r' kept).ne]
      exact all r' kept

omit got

/-- A ring buffer is given back: it is cleared, and kept unless it is too large. -/
inductive Gave (s : RingStore) (r : Nat) : RingStore → Prop
  | kept {rb : RingBuffer} {defaultSize maxSize : Int} (zeroed : (s.heap r).zeroes = some rb) :
      Gave s r { s with
        heap := update s.heap r rb.reset, pool := s.pool.put r
        defaultSize := defaultSize, maxSize := maxSize, puts := s.puts + 1 }
  | dropped {rb : RingBuffer} {defaultSize maxSize : Int} (zeroed : (s.heap r).zeroes = some rb) :
      Gave s r { s with
        heap := update s.heap r rb
        defaultSize := defaultSize, maxSize := maxSize, puts := s.puts + 1 }

theorem put_gave {ptr : Option Nat} (done : s.put ptr = some s') :
    ∃ r, ptr = some r ∧ Gave s r s' := by
  obtain ⟨r, rfl, rest⟩ := bind_eq_some_iff.mp done
  obtain ⟨rb, zeroed, last⟩ := bind_eq_some_iff.mp rest
  refine ⟨r, rfl, ?_⟩
  dsimp only at last
  split_ifs at last
  · cases last
    simp only [update_idem]
    exact .kept zeroed
  · cases last
    exact .dropped zeroed

theorem Gave.separate (gave : Gave s r s') (separate : s.Separate) : s'.Separate := by
  have same : ∀ {rb : RingBuffer}, rb.regions = (s.heap r).regions →
      Supplied ((s.heap r).regions + s.mem.pool.regions) s.mem.pool.nextAddr
        (rb.regions + s.mem.pool.regions) s.mem.pool.nextAddr := by
    intro rb regions
    rw [regions]
    exact .refl
  cases gave with
  | @kept rb _ _ zeroed =>
    have cleared : rb.regions = (s.heap r).regions := RingBuffer.zeroes_regions zeroed
    have unmoved : rb.reset.regions = rb.regions := RingBuffer.regions_of_vm rfl
    exact separate.update (same (unmoved.trans cleared)) rfl rfl
  | dropped zeroed => exact separate.update (same (RingBuffer.zeroes_regions zeroed)) rfl rfl

/-- What all free ring buffers have and one that is given back has after it was reset, the free
ones have then. -/
theorem Gave.all (gave : Gave s r s') (away : r ∉ s.pool.items)
    (all : ∀ r ∈ s.pool.items, property (s.heap r))
    (reset : ∀ rb, (s.heap r).zeroes = some rb → property rb.reset) :
    ∀ r ∈ s'.pool.items, property (s'.heap r) := by
  have others : ∀ {r' : Nat} {rb : RingBuffer}, r' ∈ s.pool.items →
      property (update s.heap r rb r') := by
    intro r' rb member
    have other : r' ≠ r := by
      rintro rfl
      exact away member
    rw [update_of_ne other]
    exact all r' member
  cases gave with
  | @kept rb _ _ zeroed =>
    intro r' member
    rcases List.mem_cons.mp member with rfl | old
    · change property (update s.heap r' rb.reset r')
      rw [update_self]
      exact reset rb zeroed
    · exact others old
  | dropped zeroed => exact fun r' member => others member

theorem use_separate {deed : RingBuffer.Deed} (done : s.use pageSize pos r deed = some s')
    (separate : s.Separate) : s'.Separate := by
  obtain ⟨⟨rb, mem⟩, ran, last⟩ := bind_eq_some_iff.mp done
  cases last
  exact separate.update
    (RingBuffer.Supplies.of_resizes (RingBuffer.Deed.exec_resizes ran)).regions rfl rfl

end RingStore

end Gain
