import Gain.Buffer.Operations
import Mathlib.Data.Nat.Log

/-! # Requests to the built-in memory pool

The built-in pool together with the requests made of it and the sizes released to
it. A request is answered with a memory of the size it was rounded to as long as
the size class it looks in holds no memory of another size; and once the class
does, the pool is free to hand that memory out. `Get` rounds the logarithm of a
size up and `Put` rounds it down, so which sizes meet in a class is a matter of
arithmetic.
-/

namespace Gain

open Function List

namespace VirtualMem

/-- A request, with the sizes found in the class it looks in, the size it is given and the
sizes released before it. -/
structure Request where
  size : Int
  shelf : List Nat
  answer : Option Nat
  released : List Nat

namespace Request

/-- The answer has the rounded size. -/
def Exact (pageSize : Nat) (q : Request) : Prop :=
  0 < q.size → ∃ n, q.answer = some n ∧ (n : Int) = adjustBufferSize pageSize q.size

instance (pageSize : Nat) (q : Request) : Decidable (q.Exact pageSize) :=
  haveI : Decidable (∃ n, q.answer = some n ∧ (n : Int) = adjustBufferSize pageSize q.size) :=
    match q.answer with
    | none => isFalse fun ⟨_, given, _⟩ => nomatch given
    | some n => decidable_of_iff ((n : Int) = adjustBufferSize pageSize q.size)
        ⟨fun same => ⟨n, rfl, same⟩, fun ⟨_, given, same⟩ => Option.some.inj given ▸ same⟩
  inferInstanceAs (Decidable (0 < q.size → _))

/-- The class looked in holds memories of the rounded size only. -/
def Uniform (pageSize : Nat) (q : Request) : Prop :=
  ∀ n ∈ q.shelf, (n : Int) = adjustBufferSize pageSize q.size

instance (pageSize : Nat) (q : Request) : Decidable (q.Uniform pageSize) :=
  inferInstanceAs (Decidable (∀ n ∈ q.shelf, (n : Int) = adjustBufferSize pageSize q.size))

/-- No other size whose logarithm rounds down to what the logarithm of the rounded size
rounds up to was released before. Memories above the limit are not pooled. -/
def Apart (pageSize : Nat) (q : Request) : Prop :=
  let size := (adjustBufferSize pageSize q.size).toNat
  0 < q.size → size ≤ maxVMSize →
    ∀ n ∈ q.released, n ≤ maxVMSize → Nat.log 2 n = Nat.clog 2 size → n = size

instance (pageSize : Nat) (q : Request) : Decidable (q.Apart pageSize) := by
  unfold Apart
  infer_instance

end Request

variable {n pageSize : Nat} {size : Int} {m : VirtualMem}

/-- `Get` looks in the class of the logarithm rounded up. -/
theorem index_eq_clog (pos : 0 < n) : index n = Nat.clog 2 n := by
  unfold index len32
  split_ifs with one
  · obtain rfl : n = 1 := by omega
    rfl
  · have above : 2 ^ (Nat.log 2 (n - 1)) ≤ n - 1 := Nat.pow_log_le_self 2 one
    have below : n - 1 < 2 ^ (Nat.log 2 (n - 1) + 1) := Nat.lt_pow_succ_log_self Nat.one_lt_two _
    rw [Nat.log2_eq_log_two]
    refine Nat.le_antisymm ?_ ?_
    · exact Nat.succ_le_of_lt ((Nat.lt_clog_iff_pow_lt Nat.one_lt_two).mpr (by omega))
    · exact (Nat.clog_le_iff_le_pow Nat.one_lt_two).mpr (by omega)

/-- `Put` files a memory in the class of the logarithm rounded down. -/
theorem Pool.putIndex_eq_log (pos : 0 < n) : Pool.putIndex n = Nat.log 2 n := by
  have above : n ≤ 2 ^ Nat.clog 2 n := Nat.le_pow_clog Nat.one_lt_two n
  unfold Pool.putIndex
  rw [index_eq_clog pos]
  split_ifs with odd
  · have big : 0 < Nat.clog 2 n := by
      by_contra zero
      rw [Nat.eq_zero_of_not_pos zero] at odd above
      omega
    obtain ⟨k, same⟩ := Nat.exists_eq_succ_of_ne_zero big.ne'
    have below : 2 ^ k < n := (Nat.lt_clog_iff_pow_lt Nat.one_lt_two).mp (by omega)
    rw [same, Nat.succ_sub_one]
    rw [same] at odd above
    exact (Nat.log_eq_of_pow_le_of_lt_pow below.le (by omega)).symm
  · have power : n = 2 ^ Nat.clog 2 n := not_not.mp odd
    exact (Nat.log_eq_of_pow_le_of_lt_pow power.ge
      (lt_of_eq_of_lt power (Nat.pow_lt_pow_succ Nat.one_lt_two))).symm

theorem adjustBufferSize_pos (pos : 0 < pageSize) (h : 0 < size) :
    0 < adjustBufferSize pageSize size :=
  lt_of_lt_of_le h (le_adjustBufferSize pos size)

theorem adjustBufferSize_idem (pos : 0 < pageSize) (size : Int) :
    adjustBufferSize pageSize (adjustBufferSize pageSize size) =
      adjustBufferSize pageSize size := by
  have nonzero : (pageSize : Int) ≠ 0 := by omega
  have negated : -adjustBufferSize pageSize size = -size / pageSize * pageSize := by
    rw [adjustBufferSize, Int.neg_mul, Int.neg_neg]
  rw [adjustBufferSize, negated, Int.mul_ediv_cancel _ nonzero, adjustBufferSize]

/-- What is rounded up to something has at least one page. -/
theorem pageSize_le_adjustBufferSize (some' : 0 < adjustBufferSize pageSize size) :
    (pageSize : Int) ≤ adjustBufferSize pageSize size := by
  unfold adjustBufferSize at some' ⊢
  have nonneg : (0 : Int) ≤ pageSize := Int.natCast_nonneg pageSize
  have pages : 1 ≤ -(-size / pageSize) := by
    by_contra none'
    have few := Int.mul_le_mul_of_nonneg_right (show -(-size / pageSize) ≤ 0 by omega) nonneg
    omega
  have many := Int.mul_le_mul_of_nonneg_right pages nonneg
  omega

namespace Pool

/-- The memories a request for `size` bytes may be answered with. -/
def shelf (pageSize : Nat) (size : Int) (p : Pool) : List VirtualMem :=
  let size := (adjustBufferSize pageSize size).toNat
  if size > maxVMSize then [] else (p.pools (index size)).items

/-- A request is answered with a fresh memory of the rounded size or from the shelf. -/
theorem get_answer (pos : 0 < pageSize) (h : 0 < size) (p : Pool) :
    ∃ m p', p.get pageSize size = (some m, p') ∧
      ((m.size : Int) = adjustBufferSize pageSize size ∨ m ∈ p.shelf pageSize size) := by
  have rounded : (((adjustBufferSize pageSize size).toNat : Nat) : Int) =
      adjustBufferSize pageSize size :=
    Int.toNat_of_nonneg (adjustBufferSize_pos pos h).le
  unfold Pool.get shelf
  rw [if_neg (not_le.mpr h)]
  by_cases large : (adjustBufferSize pageSize size).toNat > maxVMSize
  · simp only [if_pos large]
    exact ⟨_, _, rfl, Or.inl rounded⟩
  · simp only [if_neg large]
    rcases answer : (p.pools (index (adjustBufferSize pageSize size).toNat)).get with ⟨ptr, pool⟩
    cases ptr with
    | none => exact ⟨_, _, rfl, Or.inl rounded⟩
    | some m => exact ⟨m, _, rfl, Or.inr (SyncPool.get_some answer).1⟩

/-- A request puts nothing into any class. -/
theorem get_items {p : Pool} {k : Nat} (member : m ∈ ((p.get pageSize size).2.pools k).items) :
    m ∈ (p.pools k).items := by
  unfold Pool.get at member
  split_ifs at member with none'
  · exact member
  · dsimp only at member
    split_ifs at member with large
    · exact member
    · rcases answer : (p.pools (index (adjustBufferSize pageSize size).toNat)).get with ⟨ptr, pool⟩
      have kept : ∀ x ∈ pool.items,
          x ∈ (p.pools (index (adjustBufferSize pageSize size).toNat)).items := by
        cases ptr with
        | none => exact fun x inside => SyncPool.get_none answer ▸ inside
        | some _ => exact (SyncPool.get_some answer).2
      have moved : m ∈ (update p.pools
          (index (adjustBufferSize pageSize size).toNat) pool k).items := by
        rw [answer] at member
        cases ptr <;> exact member
      by_cases here : k = index (adjustBufferSize pageSize size).toNat
      · subst here
        rw [update_self] at moved
        exact kept m moved
      · rwa [update_of_ne here] at moved

end Pool

/-- The built-in pool with the requests made of it and the sizes released to it so far. -/
structure Ledger where
  pool : Pool
  requests : List Request
  released : List Nat

namespace Ledger

def get (pageSize : Nat) (size : Int) (l : Ledger) : Option VirtualMem × Ledger :=
  let (m, pool) := l.pool.get pageSize size
  (m, ⟨pool, l.requests ++ [⟨size, (l.pool.shelf pageSize size).map VirtualMem.size,
    m.map VirtualMem.size, l.released⟩], l.released⟩)

/-- The built-in pool as the ring buffers see it. -/
def source (pageSize : Nat) (pos : 0 < pageSize) : MemSource Ledger where
  pageSize := pageSize
  pageSize_pos := pos
  get := get pageSize
  put := fun m l => { l with
    pool := (builtin pageSize pos).put m l.pool, released := l.released ++ [m.size] }

/-- Bytes appear at an address, which may lie in a free memory. -/
def deposit (l : Ledger) (a : Address) (data : List UInt8) : Ledger :=
  { l with pool := { l.pool with
      pools := fun k => (l.pool.pools k).map fun m => m.deposit a data } }

variable {pageSize : Nat} {size : Int} {l l' : Ledger}

/-- Every memory of a class was released, and its size has the logarithm of the class. The
requests that were apart from all sizes released before them were answered exactly. -/
structure Filed (pageSize : Nat) (l : Ledger) : Prop where
  filed : ∀ k, ∀ m ∈ (l.pool.pools k).items,
    m.size ∈ l.released ∧ m.size ≤ maxVMSize ∧ Nat.log 2 m.size = k
  exact' : ∀ q ∈ l.requests, q.Apart pageSize → q.Exact pageSize

/-- A request is written down with its answer, and is exact if it found a uniform class. -/
theorem get_spec (pos : 0 < pageSize) {m : Option VirtualMem}
    (got : l.get pageSize size = (m, l')) :
    ∃ q : Request, l'.requests = l.requests ++ [q] ∧ q.size = size ∧
      q.answer = m.map VirtualMem.size ∧ (q.Uniform pageSize → q.Exact pageSize) := by
  cases got
  refine ⟨_, rfl, rfl, rfl, fun uniform asked => ?_⟩
  obtain ⟨m, p', answer, fits⟩ := Pool.get_answer pos asked l.pool
  refine ⟨m.size, congrArg (fun reply => reply.1.map VirtualMem.size) answer, ?_⟩
  rcases fits with fresh | member
  · exact fresh
  · exact uniform m.size (mem_map_of_mem member)

namespace Filed

/-- A request that is apart from what was released finds memories of its own size only. -/
theorem shelf (filed : l.Filed pageSize) (pos : 0 < pageSize) (asked : 0 < size) {q : Request}
    (same : q.size = size) (before : q.released = l.released) (apart : q.Apart pageSize)
    (member : m ∈ l.pool.shelf pageSize size) :
    (m.size : Int) = adjustBufferSize pageSize size := by
  have rounded : 0 < adjustBufferSize pageSize size := adjustBufferSize_pos pos asked
  unfold Pool.shelf at member
  dsimp only at member
  split_ifs at member with large
  · cases member
  · obtain ⟨released, small, log⟩ := filed.filed _ m member
    subst same
    rw [index_eq_clog (Int.pos_iff_toNat_pos.mp rounded)] at log
    rw [apart asked (not_lt.mp large) m.size (before ▸ released) small log]
    exact Int.toNat_of_nonneg rounded.le

theorem get (filed : l.Filed pageSize) (pos : 0 < pageSize) {m : Option VirtualMem}
    (got : l.get pageSize size = (m, l')) : l'.Filed pageSize := by
  cases got
  refine ⟨fun k m member => filed.filed k m (Pool.get_items member), fun q member => ?_⟩
  rcases mem_append.mp member with old | new
  · exact filed.exact' q old
  · rw [mem_singleton.mp new]
    intro apart asked
    obtain ⟨m, p', answer, fits⟩ := Pool.get_answer pos asked l.pool
    refine ⟨m.size, congrArg (fun reply => reply.1.map VirtualMem.size) answer, ?_⟩
    exact fits.elim id (filed.shelf pos asked rfl rfl apart)

/-- A memory goes to the class of its size. -/
theorem put (filed : l.Filed pageSize) (pos : 0 < pageSize) (m : VirtualMem) :
    ((source pageSize pos).put m l).Filed pageSize := by
  refine ⟨fun k x member => ?_, filed.exact'⟩
  have old : x ∈ (l.pool.pools k).items →
      x.size ∈ l.released ++ [m.size] ∧ x.size ≤ maxVMSize ∧ Nat.log 2 x.size = k := fun before =>
    (filed.filed k x before).imp_left (mem_append_left _)
  change x ∈ (((l.pool.put pageSize m.zeroes).pools) k).items at member
  unfold Pool.put at member
  split_ifs at member with outside
  · exact old member
  · by_cases here : k = Pool.putIndex m.size
    · subst here
      change x ∈ (update l.pool.pools (Pool.putIndex m.size) _ _).items at member
      rw [update_self] at member
      rcases SyncPool.mem_put.mp member with rfl | before
      · have sized : pageSize ≤ m.size ∧ m.size ≤ maxVMSize := by
          change ¬ (m.size < pageSize ∨ m.size > maxVMSize) at outside
          omega
        exact ⟨mem_append_right _ (mem_singleton_self _), sized.2,
          (Pool.putIndex_eq_log (pos.trans_le sized.1)).symm⟩
      · exact old before
    · change x ∈ (update l.pool.pools (Pool.putIndex m.size) _ k).items at member
      rw [update_of_ne here] at member
      exact old member

end Filed

/-- Only a positive request is given a memory. -/
theorem pos_of_get (got : l.get pageSize size = (some m, l')) : 0 < size := by
  by_contra small
  have answer : (l.pool.get pageSize size).1 = some m := congrArg Prod.fst got
  simp only [Pool.get, if_pos (not_lt.mp small)] at answer
  cases answer

end Ledger

end VirtualMem

end Gain
