import Mathlib.Algebra.BigOperators.Group.Finset.Piecewise
import Gain.Foundation.Supply
import Gain.Pool.Tenants

/-! # Regions are owned once

The regions behind a ring buffer and in the free lists of the memory pool. No
operation duplicates one: what growing takes from the pool or from the system it
takes away there, and what it gives back it no longer has.
-/

namespace Gain

open Function List Option VirtualMem

variable {pageSize : Nat} {l l' : Ledger}

namespace VirtualMem

theorem index_lt {n : Nat} (small : n ≤ maxVMSize) : index n < 32 := by
  unfold index len32
  split_ifs with zero
  · decide
  · have bound : n - 1 < 2 ^ 26 := by
      have : maxVMSize = 2 ^ 26 := by decide
      omega
    have := (Nat.log2_lt zero).mpr bound
    omega

variable {size : Int} {m : Option VirtualMem}

namespace Pool

/-- The regions in the free lists. -/
def regions (p : Pool) : Multiset Nat :=
  ∑ k ∈ Finset.range 32, ((p.pools k).items.map addr : Multiset Nat)

/-- The regions in the other free lists. -/
def regionsBut (p : Pool) (k : Nat) : Multiset Nat :=
  ∑ i ∈ Finset.range 32 \ {k}, ((p.pools i).items.map addr : Multiset Nat)

variable {k : Nat} {p p' : Pool}

theorem regions_update (p : Pool) (pool : SyncPool VirtualMem) (small : k < 32) :
    regions { p with pools := update p.pools k pool } =
      (pool.items.map addr : Multiset Nat) + p.regionsBut k := by
  have moved : ∀ i, (((update p.pools k pool) i).items.map addr :
      Multiset Nat) = update
        (fun i => ((p.pools i).items.map addr : Multiset Nat)) k
        (pool.items.map addr : Multiset Nat) i := by
    intro i
    by_cases same : i = k
    · subst same
      simp only [update_self]
    · simp only [update_of_ne same]
  simp only [regions, moved]
  exact Finset.sum_update_of_mem (Finset.mem_range.mpr small) _ _

theorem regions_split (p : Pool) (small : k < 32) :
    p.regions = ((p.pools k).items.map addr : Multiset Nat) + p.regionsBut k := by
  have same := regions_update p (p.pools k) small
  rwa [update_eq_self] at same

/-- A request is refused, answered with a new region, or from a free list. -/
theorem get_cases (got : p.get pageSize size = (m, p')) :
    (m = none ∧ p' = p) ∨
      (∃ new, m = some new ∧ new.addr = p.nextAddr ∧ p'.nextAddr = p.nextAddr + 1 ∧
        p'.regions = p.regions) ∨
      ∃ k < 32, ∃ pool found, (p.pools k).get = (some found, pool) ∧ m = some found ∧
        p' = { p with pools := update p.pools k pool } := by
  unfold Pool.get at got
  by_cases nonpos : size ≤ 0
  · rw [if_pos nonpos] at got
    cases got
    exact Or.inl ⟨rfl, rfl⟩
  · rw [if_neg nonpos] at got
    by_cases large : (adjustBufferSize pageSize size).toNat > maxVMSize
    · simp only [if_pos large] at got
      cases got
      exact Or.inr (Or.inl ⟨_, rfl, rfl, rfl, rfl⟩)
    · simp only [if_neg large] at got
      have small := index_lt (not_lt.mp large)
      rcases answer : (p.pools (index (adjustBufferSize pageSize size).toNat)).get with ⟨ptr, pool⟩
      rw [answer] at got
      cases ptr with
      | none =>
        cases got
        refine Or.inr (Or.inl ⟨_, rfl, rfl, rfl, ?_⟩)
        have kept := regions_update p pool small
        rw [SyncPool.get_none answer, ← regions_split p small] at kept
        exact kept
      | some found =>
        cases got
        exact Or.inr (Or.inr ⟨_, small, pool, found, answer, rfl, rfl⟩)

/-- The memory handed out was free or is new. -/
theorem get_supplied (got : p.get pageSize size = (m, p')) :
    Supplied p.regions p.nextAddr ((m.toList.map addr : Multiset Nat) + p'.regions)
      p'.nextAddr := by
  rcases get_cases got with ⟨rfl, rfl⟩ | ⟨new, rfl, addr, next, same⟩ |
    ⟨k, small, pool, found, answer, rfl, rfl⟩
  · simpa using Supplied.refl
  · rw [next, same]
    simpa [addr] using Supplied.one p.regions p.nextAddr
  · refine Supplied.of_le (le_of_eq ?_)
    have taken : (((p.pools k).items.map addr : List Nat) : Multiset Nat) =
        (found.addr :: pool.items.map addr : List Nat) :=
      Multiset.coe_eq_coe.mpr ((SyncPool.get_perm answer).map addr).symm
    rw [regions_update p pool small, regions_split p small, taken, ← Multiset.cons_coe,
      Multiset.cons_add]
    rfl

/-- At most the memory given back is free then. -/
theorem put_le (pageSize : Nat) (m : VirtualMem) (p : Pool) :
    (p.put pageSize m).regions ≤ m.addr ::ₘ p.regions ∧
      (p.put pageSize m).nextAddr = p.nextAddr := by
  unfold Pool.put
  split_ifs with refused
  · exact ⟨Multiset.le_cons_self _ _, rfl⟩
  · have small : putIndex m.size < 32 := by
      have bound := index_lt (n := m.size) (by omega)
      unfold putIndex
      split_ifs <;> omega
    refine ⟨?_, rfl⟩
    rw [regions_update p _ small, regions_split p small]
    change ((m.addr :: (p.pools (putIndex m.size)).items.map addr : List Nat) :
      Multiset Nat) + _ ≤ _
    rw [← Multiset.cons_coe, Multiset.cons_add]

end Pool

theorem Ledger.get_supplied (got : l.get pageSize size = (m, l')) :
    Supplied l.pool.regions l.pool.nextAddr
      ((m.toList.map addr : Multiset Nat) + l'.pool.regions) l'.pool.nextAddr :=
  have answer : l.pool.get pageSize size = (m, l'.pool) :=
    Prod.ext (congrArg (fun r => r.1) got) (congrArg (fun r => r.2.pool) got)
  Pool.get_supplied answer

end VirtualMem

namespace RingBuffer

open VirtualMem

def regions (rb : RingBuffer) : Multiset Nat := (rb.vm.toList.map addr : List Nat)

variable {rb rb' : RingBuffer} {newCap : Int}

theorem regions_of_vm (same : rb'.vm = rb.vm) : rb'.regions = rb.regions := by
  rw [regions, same, regions]

theorem regions_of_footing (same : rb'.footing = rb.footing) : rb'.regions = rb.regions := by
  have addr : rb'.vm.map addr = rb.vm.map addr := by
    simpa [footing, comp_def] using congrArg (Option.map Prod.fst) same
  simp only [regions, ← toList_map, addr]

theorem zeroes_regions (cleared : rb.zeroes = some rb') : rb'.regions = rb.regions :=
  regions_of_footing (zeroes_frame cleared).1

theorem newMagicBuffer_supplied {pos : 0 < pageSize} (size : Int) (l : Ledger) :
    Supplied l.pool.regions l.pool.nextAddr
      ((newMagicBuffer (Ledger.source pageSize pos) size l).1.regions +
        (newMagicBuffer (Ledger.source pageSize pos) size l).2.pool.regions)
      (newMagicBuffer (Ledger.source pageSize pos) size l).2.pool.nextAddr := by
  unfold newMagicBuffer
  split_ifs with zero
  · exact Supplied.of_le (le_of_eq (Multiset.zero_add _))
  · exact Ledger.get_supplied rfl

/-- The buffer has a memory of its size. -/
def Sized (rb : RingBuffer) : Prop := ∃ m, rb.vm = some m ∧ rb.size = m.size ∧ 0 < m.size

theorem Sized.of_footing (sized : rb.Sized) (footing : rb'.footing = rb.footing)
    (size : rb'.size = rb.size) : rb'.Sized := by
  obtain ⟨m, present, same, pos⟩ := sized
  have mine : rb'.footing = some (m.addr, m.size) := by
    rw [footing, RingBuffer.footing, present, map_some]
  obtain ⟨m', present', equal⟩ := map_eq_some_iff.mp mine
  have period : m'.size = m.size := (Prod.mk.inj equal).2
  refine ⟨m', present', ?_, ?_⟩
  · rw [size, same, period]
  · rw [period]
    exact pos

theorem Sized.of_resized {pos : 0 < pageSize} (sized : rb.Sized)
    (resized : Resized (Ledger.source pageSize pos) rb l rb' l')
    (exact' : ∀ q ∈ l'.requests, q.Exact pageSize) : rb'.Sized := by
  cases resized with
  | same size footing => exact sized.of_footing footing size
  | @grown newCap m l₁ got size footing =>
    obtain ⟨q, made, asked, answer, _⟩ := Ledger.get_spec pos got
    have member : q ∈ l₁.requests := by
      rw [made]
      exact mem_append_right _ (mem_singleton_self q)
    have mine : q.Exact pageSize := by
      refine exact' q ?_
      cases rb.vm with
      | none | some _ => exact member
    have rounded := Tenants.size_of_exact pos got asked answer mine
    obtain ⟨m', present, equal⟩ := map_eq_some_iff.mp footing
    have period : m'.size = m.size := (Prod.mk.inj equal).2
    refine ⟨m', present, ?_, ?_⟩
    · rw [period, ← rounded]
      exact size
    · rw [period]
      have some' : 0 < adjustBufferSize pageSize newCap := Ledger.pos_of_get got
      rw [rounded] at some'
      exact Int.natCast_pos.mp some'

/-- The buffer has at least one page. -/
def Paged (pageSize : Nat) (rb : RingBuffer) : Prop := (pageSize : Int) ≤ rb.size

theorem Paged.of_resized {pos : 0 < pageSize} (paged : rb.Paged pageSize)
    (resized : Resized (Ledger.source pageSize pos) rb l rb' l') : rb'.Paged pageSize := by
  cases resized with
  | same size _ =>
    rw [Paged, size]
    exact paged
  | grown got size _ =>
    rw [Paged, size]
    exact pageSize_le_adjustBufferSize (Ledger.pos_of_get got)

/-- A growth whose request was answered exactly found the memory it asked for. -/
theorem grow_ready {pos : 0 < pageSize}
    (grown : rb.grow (Ledger.source pageSize pos) newCap l = some (rb', l'))
    (exact' : ∀ q ∈ l'.requests, q.Exact pageSize) :
    (Ledger.source pageSize pos).Ready (adjustBufferSize pageSize newCap) l := by
  unfold grow at grown
  obtain ⟨m, answered, rest⟩ := bind_eq_some_iff.mp grown
  obtain ⟨⟨reply, moved⟩, _, rest⟩ := bind_eq_some_iff.mp rest
  obtain ⟨m', _, last⟩ := bind_eq_some_iff.mp rest
  rcases got : l.get pageSize (adjustBufferSize pageSize newCap) with ⟨ptr, l₁⟩
  have given : ptr = some m := by
    have first : (l.get pageSize (adjustBufferSize pageSize newCap)).1 = some m := answered
    rw [got] at first
    exact first
  subst given
  obtain ⟨q, made, asked, answer, _⟩ := Ledger.get_spec pos got
  have member : q ∈ l₁.requests := by
    rw [made]
    exact mem_append_right _ (mem_singleton_self q)
  have kept : l'.requests = l₁.requests := by
    have second : ((Ledger.source pageSize pos).get (adjustBufferSize pageSize newCap) l).2 = l₁ :=
      congrArg Prod.snd got
    cases last
    rw [← second]
    cases moved.vm <;> rfl
  have mine : q.Exact pageSize := by
    refine exact' q ?_
    rw [kept]
    exact member
  exact ⟨m, l₁, got, (Tenants.size_of_exact pos got asked answer mine).symm⟩

theorem growWhen_ready {pos : 0 < pageSize} {needed : Prop} [Decidable needed]
    (grown : rb.growWhen (Ledger.source pageSize pos) needed newCap l = some (rb', l'))
    (exact' : ∀ q ∈ l'.requests, q.Exact pageSize) (need : needed) :
    (Ledger.source pageSize pos).Ready (adjustBufferSize pageSize newCap) l := by
  unfold growWhen at grown
  rw [if_pos (decide_eq_true need)] at grown
  exact grow_ready grown exact'

theorem write_ready {pos : 0 < pageSize} {buffer : List UInt8} {n : Int} (some' : buffer ≠ [])
    (wrote : rb.write (Ledger.source pageSize pos) buffer l = some (n, rb', l'))
    (exact' : ∀ q ∈ l'.requests, q.Exact pageSize) (need : (buffer.length : Int) > rb.available) :
    (Ledger.source pageSize pos).Ready
      (adjustBufferSize pageSize (rb.size + buffer.length - rb.available)) l := by
  unfold write at wrote
  rw [if_neg (fun none' => some' (length_eq_zero_iff.mp none'))] at wrote
  obtain ⟨⟨rb₁, l₁⟩, grown, rest⟩ := bind_eq_some_iff.mp wrote
  obtain ⟨rb₂, _, rest⟩ := bind_eq_some_iff.mp rest
  obtain ⟨w, _, last⟩ := bind_eq_some_iff.mp rest
  cases last
  exact growWhen_ready grown exact' need

/-- The buffer and the free lists, from before to after an operation: no region is
duplicated, the requests are written down, the buffer keeps a page, and if the
requests are exact it still has a memory of its size. -/
structure Supplies (pageSize : Nat) (rb : RingBuffer) (l : Ledger) (rb' : RingBuffer)
    (l' : Ledger) : Prop where
  regions : Supplied (rb.regions + l.pool.regions) l.pool.nextAddr
    (rb'.regions + l'.pool.regions) l'.pool.nextAddr
  requests : ∃ made, l'.requests = l.requests ++ made
  paged : rb.Paged pageSize → rb'.Paged pageSize
  sized : (∀ q ∈ l'.requests, q.Exact pageSize) → rb.Sized → rb'.Sized

namespace Supplies

variable {pageSize : Nat} {pos : 0 < pageSize} {rb rb₁ rb' : RingBuffer} {l l₁ l' : Ledger}

theorem of_footing (same : rb'.footing = rb.footing) (size : rb'.size = rb.size) :
    Supplies pageSize rb l rb' l where
  regions := by
    rw [regions_of_footing same]
    exact Supplied.refl
  requests := ⟨[], (append_nil _).symm⟩
  paged := by
    intro paged
    rw [Paged, size]
    exact paged
  sized := fun _ sized => sized.of_footing same size

theorem of_frame (same : rb'.vm = rb.vm ∧ rb'.size = rb.size) : Supplies pageSize rb l rb' l :=
  of_footing (congrArg (Option.map fun m : VirtualMem => (m.addr, m.size)) same.1) same.2

theorem trans (first : Supplies pageSize rb l rb₁ l₁) (second : Supplies pageSize rb₁ l₁ rb' l') :
    Supplies pageSize rb l rb' l' where
  regions := first.regions.trans second.regions
  requests := by
    obtain ⟨made, appended⟩ := first.requests
    obtain ⟨more, appended'⟩ := second.requests
    exact ⟨made ++ more, by rw [appended', appended, append_assoc]⟩
  paged := fun paged => second.paged (first.paged paged)
  sized := by
    intro exact' sized
    obtain ⟨more, appended⟩ := second.requests
    refine second.sized exact' (first.sized (fun q member => exact' q ?_) sized)
    rw [appended]
    exact mem_append_left _ member

/-- Resizing exchanges memories with the pool. -/
theorem of_resized (resized : Resized (Ledger.source pageSize pos) rb l rb' l') :
    Supplies pageSize rb l rb' l' := by
  have sized : (∀ q ∈ l'.requests, q.Exact pageSize) → rb.Sized → rb'.Sized :=
    fun exact' sized => sized.of_resized resized exact'
  have paged : rb.Paged pageSize → rb'.Paged pageSize := fun paged => paged.of_resized resized
  cases resized with
  | same size footing => exact of_footing footing size
  | @grown newCap m l₁ got size footing =>
    obtain ⟨q, made, _⟩ := Ledger.get_spec pos got
    have mine : rb'.regions = {m.addr} := by
      obtain ⟨m', present, same⟩ := map_eq_some_iff.mp footing
      rw [RingBuffer.regions, present, toList_some, map_singleton, (Prod.mk.inj same).1]
      rfl
    have taken : Supplied (rb.regions + l.pool.regions) l.pool.nextAddr
        (rb.regions + ({m.addr} + l₁.pool.regions)) l₁.pool.nextAddr := by
      rw [Multiset.add_comm rb.regions, Multiset.add_comm rb.regions]
      exact (Ledger.get_supplied got).add rb.regions
    cases present : rb.vm with
    | none =>
      refine ⟨?_, ⟨[q], made⟩, paged, by simpa only [present] using sized⟩
      rw [mine]
      exact taken.le_trans (Multiset.le_add_left _ _)
    | some old =>
      obtain ⟨le, next⟩ := Pool.put_le pageSize old.zeroes l₁.pool
      have held : rb.regions = {old.addr} := by
        rw [RingBuffer.regions, present, toList_some, map_singleton]
        rfl
      refine ⟨?_, ⟨[q], made⟩, paged, by simpa only [present] using sized⟩
      rw [mine]
      change Supplied _ _ _ (l₁.pool.put pageSize old.zeroes).nextAddr
      rw [next]
      refine taken.le_trans ?_
      calc {m.addr} + (l₁.pool.put pageSize old.zeroes).regions
          ≤ {m.addr} + (old.addr ::ₘ l₁.pool.regions) := Multiset.add_le_add_left le
        _ = rb.regions + ({m.addr} + l₁.pool.regions) := by
            rw [held, ← Multiset.singleton_add, add_left_comm]

theorem of_resizes (resizes : Resizes (Ledger.source pageSize pos) rb l rb' l') :
    Supplies pageSize rb l rb' l' := by
  have chain : ∀ y : RingBuffer × Ledger, Relation.ReflTransGen
      (fun x y : RingBuffer × Ledger => Resized (Ledger.source pageSize pos) x.1 x.2 y.1 y.2)
      (rb, l) y → Supplies pageSize rb l y.1 y.2 := by
    intro y reached
    induction reached with
    | refl => exact of_footing rfl rfl
    | tail _ last ih => exact ih.trans (of_resized last)
  exact chain (rb', l') resizes

theorem of_readFrom {chunks : List (List UInt8)} {last : List UInt8} {final : Error}
    {reply : Int × Option Error}
    (read : rb.readFrom (Ledger.source pageSize pos) chunks last final l = some (reply, rb', l')) :
    Supplies pageSize rb l rb' l' :=
  of_resizes (readFrom_reads read).resizes

theorem of_writeTo {written : Int} {err : Option Error}
    {reply : List UInt8 × Int × Option Error} (pos : 0 < pageSize)
    (wrote : rb.writeTo written err = some (reply, rb')) : Supplies pageSize rb l rb' l := by
  have resized : Resized (Ledger.source pageSize pos) rb l rb' l := writeTo_resized wrote
  exact of_resized resized

end Supplies

end RingBuffer

end Gain
