import Gain.Process.RingStore

/-! # What is in a memory that is handed out

Ring buffers and memories that are handed out and given back, by any number of
holders in any order. A memory is cleared as a whole when it is given back. A ring
buffer is cleared up to its own size, which is the whole memory as long as it has the
size of its memory.
-/

namespace Gain

open Function List Option RingBuffer Tenants VirtualMem

variable {m : Option VirtualMem} {next : Nat} {size : Int} {l l' : Ledger}

namespace VirtualMem

/-- Every byte is zero. -/
def Blank (m : VirtualMem) : Prop := ∀ i : Int, 0 ≤ i → i < 2 * m.size → m.get? i = some 0

theorem Blank.of_cells {m : VirtualMem} (zero : ∀ c < m.size, m.cells c = 0) : m.Blank := by
  intro i low high
  rw [get?, if_pos ⟨low, high⟩]
  have some' : 0 < m.size := by omega
  exact congrArg some (zero _ (Nat.mod_lt _ some'))

theorem zeroes_blank (m : VirtualMem) : m.zeroes.Blank :=
  .of_cells fun _ small => if_pos small

namespace Pool

variable {pageSize : Nat} {p p' : Pool}

/-- Every free memory is blank. -/
def Blank (p : Pool) : Prop := ∀ k, ∀ m ∈ (p.pools k).items, m.Blank

/-- One of the free lists changes. -/
theorem Blank.update (blank : p.Blank) {k : Nat} {pool : SyncPool VirtualMem}
    (mine : ∀ m ∈ pool.items, m.Blank) : Blank ⟨update p.pools k pool, next⟩ := by
  intro i m member
  by_cases same : i = k
  · subst same
    simp only [update_self] at member
    exact mine m member
  · simp only [update_of_ne same] at member
    exact blank i m member

/-- A memory that is handed out is blank. -/
theorem Blank.get (blank : p.Blank) (got : p.get pageSize size = (m, p')) :
    p'.Blank ∧ ∀ x, m = some x → x.Blank := by
  have fresh : ∀ n, (p.newVirtualMem n).1.Blank := fun n => .of_cells fun _ _ => rfl
  unfold Pool.get at got
  split_ifs at got with nonpos
  · cases got
    exact ⟨blank, fun x gone => nomatch gone⟩
  by_cases large : (adjustBufferSize pageSize size).toNat > maxVMSize
  · simp only [if_pos large] at got
    cases got
    refine ⟨blank, fun x made => ?_⟩
    cases made
    exact fresh _
  simp only [if_neg large] at got
  rcases answer : (p.pools (index (adjustBufferSize pageSize size).toNat)).get with ⟨ptr, pool⟩
  rw [answer] at got
  cases ptr with
  | none =>
    cases got
    refine ⟨blank.update ?_, fun x made => ?_⟩
    · rw [SyncPool.get_none answer]
      exact blank _
    · cases made
      exact fresh _
  | some found =>
    cases got
    obtain ⟨member, kept⟩ := SyncPool.get_some answer
    refine ⟨blank.update fun m left => blank _ m (kept m left), fun x given => ?_⟩
    cases given
    exact blank _ found member

theorem Blank.put (blank : p.Blank) (m : VirtualMem) : (p.put pageSize m.zeroes).Blank := by
  unfold Pool.put
  split_ifs
  · exact blank
  · refine blank.update fun x member => ?_
    rcases SyncPool.mem_put.mp member with rfl | old
    · exact m.zeroes_blank
    · exact blank _ x old

end Pool

theorem Ledger.get_blank {pageSize : Nat} (blank : l.pool.Blank)
    (got : l.get pageSize size = (m, l')) : l'.pool.Blank ∧ ∀ x, m = some x → x.Blank := by
  have answer : l.pool.get pageSize size = (m, l'.pool) :=
    Prod.ext (congrArg (fun r => r.1) got) (congrArg (fun r => r.2.pool) got)
  exact blank.get answer

end VirtualMem

namespace RingBuffer

/-- The memory behind the buffer is blank. -/
def Zeroed (rb : RingBuffer) : Prop := ∀ m, rb.vm = some m → m.Blank

variable {pageSize : Nat} {pos : 0 < pageSize} {rb rb' : RingBuffer} {l l' : Ledger}

/-- A buffer that has the size of its memory clears all of it. -/
theorem zeroes_zeroed (fits : Fits rb) (cleared : rb.zeroes = some rb') : rb'.Zeroed := by
  intro m' present'
  apply Blank.of_cells
  intro c small
  unfold zeroes at cleared
  split_ifs at cleared with none'
  · cases cleared
    have size := fits m' present'
    omega
  · obtain ⟨m, present, set⟩ := bind_eq_some_iff.mp cleared
    have size := fits m present
    split_ifs at set
    cases set
    cases present'
    exact if_pos ⟨by rw [size]; exact Int.ofNat_lt.mpr small, small⟩

theorem Resized.blank (resized : Resized (Ledger.source pageSize pos) rb l rb' l')
    (blank : l.pool.Blank) : l'.pool.Blank := by
  cases resized with
  | same => exact blank
  | @grown newCap m l₁ got size footing =>
    have left : l₁.pool.Blank := (Ledger.get_blank blank got).1
    cases rb.vm with
    | none => exact left
    | some old => exact left.put old

/-- The free memories stay blank, and a buffer that has the size of its memory keeps it if all
classes looked in are uniform. -/
theorem Resizes.fits (resizes : Resizes (Ledger.source pageSize pos) rb l rb' l') :
    (l.pool.Blank → l'.pool.Blank) ∧ ∃ made, l'.requests = l.requests ++ made ∧
      ((∀ q ∈ made, q.Uniform pageSize) → Fits rb → Fits rb') := by
  have chain : ∀ y : RingBuffer × Ledger, Relation.ReflTransGen
      (fun x y : RingBuffer × Ledger => Resized (Ledger.source pageSize pos) x.1 x.2 y.1 y.2)
      (rb, l) y → (l.pool.Blank → y.2.pool.Blank) ∧ ∃ made, y.2.requests = l.requests ++ made ∧
        ((∀ q ∈ made, q.Uniform pageSize) → Fits rb → Fits y.1) := by
    intro y reached
    induction reached with
    | refl => exact ⟨id, [], (append_nil _).symm, fun _ => id⟩
    | tail _ last ih =>
      obtain ⟨blank, made, appended, fits⟩ := ih
      obtain ⟨more, appended', exact', fits'⟩ := fits_of_resized last
      refine ⟨fun free => last.blank (blank free), made ++ more, ?_, fun uniform fit => ?_⟩
      · rw [appended', appended, append_assoc]
      · refine fits' (fits (fun q member => uniform q ?_) fit) fun q member => exact' q member ?_
        · exact mem_append_left more member
        · exact uniform q (mem_append_right made member)
  exact chain (rb', l') resizes

theorem zeroed_of_newMagicBuffer (blank : l.pool.Blank)
    (made : newMagicBuffer (Ledger.source pageSize pos) size l = (rb, l')) :
    l'.pool.Blank ∧ rb.Zeroed := by
  unfold newMagicBuffer at made
  split_ifs at made
  · cases made
    refine ⟨blank, fun m gone => ?_⟩
    cases gone
  · rcases got : (Ledger.source pageSize pos).get
      (adjustBufferSize (Ledger.source pageSize pos).pageSize size) l with ⟨m, l₁⟩
    obtain ⟨left, given⟩ := Ledger.get_blank blank got
    simp only [got] at made
    cases made
    exact ⟨left, given⟩

end RingBuffer

/-- The ring buffers and the memories that are handed out. -/
structure Lending where
  store : RingStore
  lent : Finset Nat
  mems : Nat → Option VirtualMem
  nextMem : Nat

namespace Lending

inductive Label where
  | ringGet
  | ringPut (r : Nat)
  /-- The holder of a ring buffer uses it. -/
  | use (r : Nat) (deed : RingBuffer.Deed)
  /-- The kernel stores bytes at the write address. -/
  | fill (r : Nat) (data : List UInt8)
  | memGet (size : Int)
  | memPut (i : Nat)
  /-- The holder of a memory stores bytes in it. -/
  | memFill (i : Nat) (offset : Nat) (data : List UInt8)

variable (pageSize : Nat) (pos : 0 < pageSize)

def start (rings : Nat → Option Nat) (mems : Nat → Nat → Option Nat)
    (calibration : Nat → Option (Fin 15 × Fin 15)) : Lending :=
  ⟨.start pageSize rings mems calibration, ∅, fun _ => none, 0⟩

/-- One step, by the holder of what it is about. -/
def step (t : Lending) : Label → Option Lending
  | .ringGet =>
    let (r, store) := t.store.get pageSize pos
    some { t with store := store, lent := insert r t.lent }
  | .ringPut r =>
    if r ∈ t.lent then do
      let store ← t.store.put (some r)
      return { t with store := store, lent := t.lent.erase r }
    else none
  | .use r deed =>
    if r ∈ t.lent then do
      let store ← t.store.use pageSize pos r deed
      return { t with store := store }
    else none
  | .fill r data =>
    if r ∈ t.lent then do
      let a ← (t.store.heap r).writeAddress
      return { t with store := { t.store with
        heap := update t.store.heap r ((t.store.heap r).deposit a data) } }
    else none
  | .memGet size =>
    let (m, mem) := (Ledger.source pageSize pos).get size t.store.mem
    some { t with
      store := { t.store with mem := mem }
      mems := update t.mems t.nextMem m, nextMem := t.nextMem + 1 }
  | .memPut i => do
    let m ← t.mems i
    return { t with
      store := { t.store with mem := (Ledger.source pageSize pos).put m t.store.mem }
      mems := update t.mems i none }
  | .memFill i offset data => do
    let m ← t.mems i
    let m := { m with cells := Mirror.fill m.cells m.size offset data }
    return { t with mems := update t.mems i (some m) }

variable {pageSize pos} {t t' : Lending} {r : Nat} {label : Label} {rb : RingBuffer}
  {store : RingStore} {mem : Ledger}

/-- A ring buffer that is handed out holds its name. -/
def holds (lent : Finset Nat) (r : Nat) : Option Nat := if r ∈ lent then some r else none

/-- No ring buffer is free and handed out at once, and all free memories are blank. As long as
all classes looked in were uniform, every ring buffer has the size of its memory and the free ones
are blank. -/
structure Clean (pageSize : Nat) (t : Lending) : Prop where
  lent : Holding (holds t.lent) t.store.pool.items t.store.nextRing
  free : t.store.mem.pool.Blank
  fits : (∀ q ∈ t.store.mem.requests, q.Uniform pageSize) → ∀ r, Fits (t.store.heap r)
  blank : (∀ q ∈ t.store.mem.requests, q.Uniform pageSize) →
    ∀ r ∈ t.store.pool.items, (t.store.heap r).Zeroed

theorem start_clean (rings : Nat → Option Nat) (mems : Nat → Nat → Option Nat)
    (calibration : Nat → Option (Fin 15 × Fin 15)) :
    Clean pageSize (start pageSize rings mems calibration) where
  lent := by
    have nothing : holds ∅ = fun _ => none := funext fun r => if_neg (Finset.notMem_empty r)
    change Holding (holds ∅) 0 0
    rw [nothing]
    exact .empty
  free := fun k m member => absurd member not_mem_nil
  fits := fun _ r m gone => nomatch gone
  blank := fun _ r member => absurd member not_mem_nil

theorem uniform_of_append {made : List Request} (appended : l'.requests = l.requests ++ made)
    (uniform : ∀ q ∈ l'.requests, q.Uniform pageSize) :
    (∀ q ∈ l.requests, q.Uniform pageSize) ∧ ∀ q ∈ made, q.Uniform pageSize := by
  rw [appended] at uniform
  exact ⟨fun q member => uniform q (mem_append_left _ member),
    fun q member => uniform q (mem_append_right _ member)⟩

/-- One ring buffer of the heap changes. -/
theorem forall_update {heap : Nat → RingBuffer} {property : RingBuffer → Prop}
    (all : ∀ r, property (heap r)) (mine : property rb) (r r' : Nat) :
    property (update heap r rb r') := by
  by_cases same : r' = r
  · subst same
    rw [update_self]
    exact mine
  · rw [update_of_ne same]
    exact all r'

namespace Clean

variable (clean : t.Clean pageSize)
include clean

theorem notMem (lent : r ∈ t.lent) : r ∉ t.store.pool.items :=
  clean.lent.taken (x := r) (if_pos lent)

/-- A ring buffer is lent. -/
theorem ringGet (got : t.store.Got pageSize pos r store) :
    Clean pageSize { t with store := store, lent := insert r t.lent } ∧
      ((∀ q ∈ t.store.mem.requests, q.Uniform pageSize) → (store.heap r).Zeroed) := by
  have lent : Holding (holds (insert r t.lent)) store.pool.items store.nextRing := by
    refine Holding.exchange (x := r) clean.lent (fun y ne => ?_) ?_
    · simp only [holds, Finset.mem_insert, ne, false_or]
    · rw [show holds (insert r t.lent) r = some r from if_pos (Finset.mem_insert_self r _)]
      exact (Supplied.of_le (Multiset.le_add_left _ _)).trans got.supplied
  have below : ∀ r ∈ t.store.pool.items, r < t.store.nextRing :=
    fun r member => clean.lent.distinct.2 r member
  rcases new : RingBuffer.newMagicBuffer (Ledger.source pageSize pos) t.store.defaultSize
    t.store.mem with ⟨rb, mem⟩
  obtain ⟨left, made⟩ := zeroed_of_newMagicBuffer clean.free new
  have all := fun uniform => got.all below (clean.blank uniform) (by rw [new]; exact made)
  refine ⟨?_, fun uniform => (all uniform).1⟩
  cases got with
  | pooled got => exact ⟨lent, clean.free, clean.fits, fun uniform => (all uniform).2⟩
  | @made pool rb' mem' got new' =>
    cases new.symm.trans new'
    obtain ⟨requests, appended, exact', fits⟩ :=
      newMagicBuffer_fits pos t.store.defaultSize t.store.mem
    rw [new] at appended fits
    refine ⟨lent, left, fun uniform r' => ?_, fun uniform => ?_⟩
    · obtain ⟨old, mine⟩ := uniform_of_append appended uniform
      exact forall_update (clean.fits old)
        (fits fun q member => exact' q member (mine q member)) _ r'
    · exact (all (uniform_of_append appended uniform).1).2

/-- A ring buffer comes back zeroed. -/
theorem ringPut (lent : r ∈ t.lent) (gave : t.store.Gave r store) :
    Clean pageSize { t with store := store, lent := t.lent.erase r } := by
  have holding : Holding (holds (t.lent.erase r)) store.pool.items store.nextRing := by
    refine Holding.exchange (x := r) clean.lent (fun y ne => ?_) ?_
    · simp only [holds, Finset.mem_erase, ne_eq, ne, not_false_eq_true, true_and]
    · rw [show holds t.lent r = some r from if_pos lent,
        show holds (t.lent.erase r) r = none from if_neg (Finset.notMem_erase r _)]
      cases gave with
      | kept _ => exact Supplied.refl
      | dropped _ => exact Supplied.of_le (Multiset.le_add_left _ _)
  have blank := fun uniform : ∀ q ∈ t.store.mem.requests, q.Uniform pageSize =>
    gave.all (clean.notMem lent) (clean.blank uniform) fun rb cleared =>
      show rb.Zeroed from zeroes_zeroed (clean.fits uniform r) cleared
  cases gave with
  | kept cleared | dropped cleared =>
    refine ⟨holding, clean.free, fun uniform => forall_update (clean.fits uniform) ?_ r, blank⟩
    obtain ⟨footing, size⟩ := zeroes_frame cleared
    exact (clean.fits uniform r).of_footing footing size

/-- A ring buffer that is handed out is used, together with the memory pool. -/
theorem used (lent : r ∈ t.lent)
    (resizes : RingBuffer.Resizes (Ledger.source pageSize pos) (t.store.heap r) t.store.mem rb
      mem) :
    Clean pageSize { t with store := { t.store with
      heap := update t.store.heap r rb, mem := mem } } := by
  obtain ⟨free, made, appended, fits⟩ := resizes.fits
  refine ⟨clean.lent, free clean.free, fun uniform => ?_, fun uniform r' member => ?_⟩
  · obtain ⟨old, mine⟩ := uniform_of_append appended uniform
    exact forall_update (clean.fits old) (fits mine (clean.fits old r)) r
  · have other : r' ≠ r := by
      rintro rfl
      exact clean.notMem lent member
    change (update t.store.heap r rb r').Zeroed
    rw [update_of_ne other]
    exact clean.blank (uniform_of_append appended uniform).1 r' member

theorem memGet (got : t.store.mem.get pageSize size = (m, mem))
    (pos : 0 < pageSize) {mems : Nat → Option VirtualMem} {nextMem : Nat} :
    Clean pageSize ⟨{ t.store with mem := mem }, t.lent, mems, nextMem⟩ := by
  obtain ⟨q, appended, _⟩ := Ledger.get_spec pos got
  refine ⟨clean.lent, (Ledger.get_blank clean.free got).1, fun uniform => ?_, fun uniform => ?_⟩
  · exact clean.fits (uniform_of_append appended uniform).1
  · exact clean.blank (uniform_of_append appended uniform).1

/-- Every step leaves what is free blank. -/
theorem step (done : t.step pageSize pos label = some t') : t'.Clean pageSize := by
  cases label with
  | ringGet =>
    cases done
    exact (clean.ringGet (RingStore.get_got t.store)).1
  | ringPut r =>
    obtain ⟨lent, rest⟩ := ite_none_right_eq_some.mp done
    obtain ⟨store, puts, last⟩ := bind_eq_some_iff.mp rest
    cases last
    obtain ⟨r', same, gave⟩ := RingStore.put_gave puts
    cases same
    exact clean.ringPut lent gave
  | use r deed =>
    obtain ⟨lent, rest⟩ := ite_none_right_eq_some.mp done
    obtain ⟨store, uses, last⟩ := bind_eq_some_iff.mp rest
    obtain ⟨⟨rb, mem⟩, ran, last'⟩ := bind_eq_some_iff.mp uses
    cases last'
    cases last
    exact clean.used lent (RingBuffer.Deed.exec_resizes ran)
  | fill r data =>
    obtain ⟨lent, rest⟩ := ite_none_right_eq_some.mp done
    obtain ⟨a, _, last⟩ := bind_eq_some_iff.mp rest
    cases last
    have filled : RingBuffer.Resized (Ledger.source pageSize pos) (t.store.heap r) t.store.mem
        ((t.store.heap r).deposit a data) t.store.mem :=
      .same rfl (deposit_footing _ a data)
    exact clean.used lent filled.resizes
  | memGet size =>
    cases done
    exact clean.memGet rfl pos
  | memPut i =>
    obtain ⟨m, present, last⟩ := bind_eq_some_iff.mp done
    cases last
    exact ⟨clean.lent, clean.free.put m, clean.fits, clean.blank⟩
  | memFill i offset data =>
    obtain ⟨m, present, last⟩ := bind_eq_some_iff.mp done
    cases last
    exact ⟨clean.lent, clean.free, clean.fits, clean.blank⟩

end Clean

/-- In every run whose requests all found a size class without memories of another size, every
byte of the memory behind a ring buffer that is handed out next is zero, and so is every byte of a
memory that is. -/
theorem run_blank_of_uniform {rings : Nat → Option Nat} {mems : Nat → Nat → Option Nat}
    {calibration : Nat → Option (Fin 15 × Fin 15)} {ls : List Label}
    (ran : run (step pageSize pos) ls (start pageSize rings mems calibration) = some t)
    (uniform : ∀ q ∈ t.store.mem.requests, q.Uniform pageSize) :
    ((t.store.get pageSize pos).2.heap (t.store.get pageSize pos).1).Zeroed ∧
    ∀ size m mem, t.store.mem.get pageSize size = (some m, mem) → m.Blank := by
  have clean : t.Clean pageSize := run_preserves (Clean pageSize)
    (fun t label t' done clean => clean.step done) ran (start_clean rings mems calibration)
  refine ⟨(clean.ringGet (RingStore.get_got t.store)).2 uniform, fun size m mem got => ?_⟩
  exact (Ledger.get_blank clean.free got).2 m rfl

/-- The regions behind ring buffers and of memories that are handed out. -/
def region (t : Lending) : Nat ⊕ Nat → Option Nat
  | .inl r => t.store.region r
  | .inr i => (t.mems i).map addr

/-- No region is in two places or free, so that a store to one memory changes no other. -/
def Separate (t : Lending) : Prop :=
  Holding t.region t.store.mem.pool.regions t.store.mem.pool.nextAddr

namespace Separate

variable {lent : Finset Nat}

variable (separate : t.Separate)
include separate

/-- One ring buffer exchanges its region with the free ones. -/
theorem ring
    (supplied : Supplied ((t.store.heap r).regions + t.store.mem.pool.regions)
      t.store.mem.pool.nextAddr (rb.regions + store.mem.pool.regions) store.mem.pool.nextAddr)
    (heap : store.heap = update t.store.heap r rb) :
    Separate { t with store := store, lent := lent } := by
  refine Holding.exchange (x := Sum.inl r) separate ?_ ?_
  · rintro (r' | i) ne
    · have other : r' ≠ r := fun same => ne (congrArg Sum.inl same)
      simp only [region, RingStore.region, heap, update_of_ne other]
    · rfl
  · simp only [region, RingStore.region_toList, heap, update_self]
    exact supplied

/-- A ring buffer changes and keeps its region. -/
theorem ring_same (same : rb.regions = (t.store.heap r).regions)
    (mem : store.mem = t.store.mem) (heap : store.heap = update t.store.heap r rb) :
    Separate { t with store := store, lent := lent } := by
  refine separate.ring ?_ heap
  rw [same, mem]
  exact .refl

theorem ringGet (got : t.store.Got pageSize pos r store) :
    Separate { t with store := store, lent := lent } := by
  cases got with
  | pooled got => exact separate
  | @made pool rb mem got new =>
    have supplied := @RingBuffer.newMagicBuffer_supplied pageSize pos t.store.defaultSize
      t.store.mem
    rw [new] at supplied
    exact separate.ring ((Supplied.of_le (Multiset.le_add_left _ _)).trans supplied) rfl

/-- One holder of a memory exchanges its region with the free ones. -/
theorem memory {i : Nat}
    (supplied : Supplied (((t.region (.inr i)).toList : Multiset Nat) + t.store.mem.pool.regions)
      t.store.mem.pool.nextAddr
      (((m.map addr).toList : Multiset Nat) + mem.pool.regions) mem.pool.nextAddr) :
    Separate ⟨{ t.store with mem := mem }, t.lent, update t.mems i m, next⟩ := by
  refine Holding.exchange (x := Sum.inr i) separate ?_ ?_
  · rintro (r' | j) ne
    · rfl
    · have other : j ≠ i := fun same => ne (congrArg Sum.inr same)
      simp only [region, update_of_ne other]
  · simp only [region, update_self]
    exact supplied

/-- Every step keeps the regions apart. -/
theorem step (done : t.step pageSize pos label = some t') : t'.Separate := by
  cases label with
  | ringGet =>
    cases done
    exact separate.ringGet (RingStore.get_got t.store)
  | ringPut r =>
    obtain ⟨lent, rest⟩ := ite_none_right_eq_some.mp done
    obtain ⟨store, puts, last⟩ := bind_eq_some_iff.mp rest
    cases last
    obtain ⟨r', same, gave⟩ := RingStore.put_gave puts
    cases same
    cases gave with
    | @kept rb _ _ cleared =>
      have moved : rb.reset.regions = rb.regions := regions_of_vm rfl
      exact separate.ring_same (moved.trans (zeroes_regions cleared)) rfl rfl
    | dropped cleared => exact separate.ring_same (zeroes_regions cleared) rfl rfl
  | use r deed =>
    obtain ⟨lent, rest⟩ := ite_none_right_eq_some.mp done
    obtain ⟨store, uses, last⟩ := bind_eq_some_iff.mp rest
    obtain ⟨⟨rb, mem⟩, ran, last'⟩ := bind_eq_some_iff.mp uses
    cases last'
    cases last
    have supplies := RingBuffer.Supplies.of_resizes (RingBuffer.Deed.exec_resizes ran)
    exact separate.ring supplies.regions rfl
  | fill r data =>
    obtain ⟨lent, rest⟩ := ite_none_right_eq_some.mp done
    obtain ⟨a, _, last⟩ := bind_eq_some_iff.mp rest
    cases last
    have same := regions_of_footing
      (deposit_footing (t.store.heap r) a data)
    exact separate.ring_same same rfl rfl
  | memGet size =>
    cases done
    have supplied := Ledger.get_supplied (Eq.refl (t.store.mem.get pageSize size))
    rw [← toList_map] at supplied
    exact separate.memory ((Supplied.of_le (Multiset.le_add_left _ _)).trans supplied)
  | memPut i =>
    obtain ⟨m, present, last⟩ := bind_eq_some_iff.mp done
    cases last
    obtain ⟨le, next⟩ := Pool.put_le pageSize m.zeroes t.store.mem.pool
    refine separate.memory ?_
    rw [show t.region (.inr i) = some m.addr from congrArg (Option.map addr) present]
    change Supplied _ _ (0 + (t.store.mem.pool.put pageSize m.zeroes).regions)
      (t.store.mem.pool.put pageSize m.zeroes).nextAddr
    rw [next, Multiset.zero_add]
    exact Supplied.of_le le
  | memFill i offset data =>
    obtain ⟨m, present, last⟩ := bind_eq_some_iff.mp done
    cases last
    refine separate.memory ?_
    rw [show t.region (.inr i) = some m.addr from congrArg (Option.map addr) present]
    exact .refl

end Separate

theorem run_separate {rings : Nat → Option Nat} {mems : Nat → Nat → Option Nat}
    {calibration : Nat → Option (Fin 15 × Fin 15)} {ls : List Label}
    (ran : run (step pageSize pos) ls (start pageSize rings mems calibration) = some t) :
    t.Separate := by
  have initial : (start pageSize rings mems calibration).Separate := by
    have none' : (start pageSize rings mems calibration).region = fun _ => none := by
      funext x
      cases x <;> rfl
    have nothing : (start pageSize rings mems calibration).store.mem.pool.regions = 0 :=
      Finset.sum_eq_zero fun k _ => rfl
    rw [Separate, none', nothing]
    exact .empty
  exact run_preserves Separate (fun t label t' done separate => separate.step done) ran initial

/-- Pools that hand out what was put back last. -/
def recycling : Lending :=
  start 4096 (fun _ => some 0) (fun _ _ => some 0) fun _ => none

theorem run_blank_of_uniform_recycling : ∃ t m,
    run (step 4096 (by decide)) [.ringGet, .use 0 (.op (.write [1, 2])), .memGet 8192,
      .memFill 0 5 [7], .fill 0 [8], .ringPut 0, .memPut 0] recycling = some t ∧
    (t.store.get 4096 (by decide)).1 = 0 ∧
    ((t.store.get 4096 (by decide)).2.heap 0).vm = some m ∧ m.size = 4096 ∧ m.Blank := by
  obtain ⟨t, ran, first, sized, uniform⟩ : ∃ t, run (step 4096 (by decide)) [.ringGet,
        .use 0 (.op (.write [1, 2])), .memGet 8192, .memFill 0 5 [7], .fill 0 [8], .ringPut 0,
        .memPut 0] recycling = some t ∧ (t.store.get 4096 (by decide)).1 = 0 ∧
      ((t.store.get 4096 (by decide)).2.heap 0).vm.map VirtualMem.size = some 4096 ∧
      ∀ q ∈ t.store.mem.requests, q.Uniform 4096 := by
    exact exists_run_from (by decide +kernel)
  obtain ⟨m, present, size⟩ := map_eq_some_iff.mp sized
  have blank := (run_blank_of_uniform ran uniform).1
  rw [first] at blank
  exact ⟨t, m, ran, first, present, size, blank m present⟩

theorem run_separate_recycling : ∃ t, run (step 4096 (by decide)) [.memGet 8192, .ringGet,
    .use 0 (.op (.write [1, 2])), .memPut 0, .use 0 (.op (.grow 8192)), .memGet 4096] recycling =
      some t ∧ t.Separate := by
  obtain ⟨t, ran⟩ := isSome_iff_exists.mp
    (show (run (step 4096 (by decide)) [.memGet 8192, .ringGet, .use 0 (.op (.write [1, 2])),
      .memPut 0, .use 0 (.op (.grow 8192)), .memGet 4096] recycling).isSome = true by
        decide +kernel)
  exact ⟨t, ran, run_separate ran⟩

/-- A ring buffer of two pages is given a memory of three pages. What it writes behind its own size
is there when it is handed out again. -/
def spilled : List Label :=
  [.memGet 12288, .memPut 0, .ringGet, .use 0 (.op (.grow 8192)), .use 0 (.op (.write [1, 2])),
    .use 0 (.op (.read [0])), .use 0 (.op (.write (List.replicate 8191 7))), .ringPut 0]

theorem run_not_blank : ∃ t m, run (step 4096 (by decide)) spilled recycling = some t ∧
    ((t.store.get 4096 (by decide)).2.heap (t.store.get 4096 (by decide)).1).vm = some m ∧
    m.get? 8192 = some 7 := by
  have seen : ((run (step 4096 (by decide)) spilled recycling).bind fun t =>
      ((t.store.get 4096 (by decide)).2.heap (t.store.get 4096 (by decide)).1).vm.bind
        (get? · 8192)) = some 7 := by decide +kernel
  obtain ⟨t, ran, seen⟩ := bind_eq_some_iff.mp seen
  obtain ⟨m, present, byte⟩ := bind_eq_some_iff.mp seen
  exact ⟨t, m, ran, present, byte⟩

end Lending

end Gain
