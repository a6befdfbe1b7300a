import Mathlib.Algebra.Order.BigOperators.Group.Finset
import Mathlib.Tactic.Abel
import Gain.Worker.Stepped

/-! # The registry of connections

What `connectionManager.get` and `connectionManager.release` do to a worker: an
object and two buffers are taken into use or given up, and the regions of memory
they stand for are moved and never duplicated.
-/

namespace Gain

open BufferPool Function List Option RingBuffer VirtualMem

/-- The buffer is empty, with a memory of its size. -/
structure RingBuffer.Blank (rb : RingBuffer) : Prop where
  sized : rb.Sized
  r : rb.r = 0
  w : rb.w = 0
  isEmpty : rb.isEmpty = true

variable {rb : RingBuffer} {l : Ledger}

theorem RingBuffer.Blank.layout (blank : rb.Blank) :
    ∃ l : Layout, rb = l.toRing ∧ l.isEmpty = true := by
  obtain ⟨⟨m, present, size, pos⟩, r, w, isEmpty⟩ := blank
  refine ⟨⟨m, 0, 0, true, pos, pos, pos, fun _ => rfl⟩, ?_, rfl⟩
  cases rb
  simp only at present size r w isEmpty
  subst present size r w isEmpty
  rfl

/-- Both buffers of the connection are empty, with a memory of their size. -/
def Connection.Blank (c : Connection) : Prop :=
  (∃ rb, c.inboundBuffer = some rb ∧ rb.Blank) ∧ ∃ rb, c.outboundBuffer = some rb ∧ rb.Blank

/-- The regions behind the free buffers. -/
def BufferPool.regions (p : BufferPool) : Multiset Nat :=
  (p.pool.items.map RingBuffer.regions).sum

namespace RingBuffer

theorem newMagicBuffer_blank {pageSize : Nat} (pos : 0 < pageSize) {size : Int} (some' : 0 < size) :
    ∃ made, (newMagicBuffer (Ledger.source pageSize pos) size l).2.requests =
        l.requests ++ made ∧
      ((∀ q ∈ made, q.Exact pageSize) →
        (newMagicBuffer (Ledger.source pageSize pos) size l).1.Blank) := by
  have asked := adjustBufferSize_pos pos some'
  unfold newMagicBuffer
  rw [if_neg some'.ne']
  change ∃ made, (l.get pageSize (adjustBufferSize pageSize size)).2.requests = _ ∧
    (_ → Blank ⟨(l.get pageSize (adjustBufferSize pageSize size)).1, _, 0, 0, true⟩)
  rcases got : l.get pageSize (adjustBufferSize pageSize size) with ⟨answer, l'⟩
  obtain ⟨q, made, same, given, _⟩ := Ledger.get_spec pos got
  refine ⟨[q], made, fun exact' => ⟨?_, rfl, rfl, rfl⟩⟩
  obtain ⟨n, answered, rounded⟩ := exact' q (mem_singleton_self q) (same ▸ asked)
  rw [given] at answered
  obtain ⟨m, rfl, period⟩ := map_eq_some_iff.mp answered
  rw [same, adjustBufferSize_idem pos, ← period] at rounded
  refine ⟨m, rfl, rounded.symm, ?_⟩
  rw [← rounded] at asked
  exact Int.natCast_pos.mp asked

end RingBuffer

namespace BufferPool

variable {pageSize : Nat} {pos : 0 < pageSize} {p p' : BufferPool} {l l' : Ledger}
  {ptr : Option RingBuffer}

/-- A buffer is taken from the free ones or made anew. -/
theorem get_supplied (got : p.get (Ledger.source pageSize pos) l = (rb, p', l')) :
    Supplied (p.regions + l.pool.regions) l.pool.nextAddr
      (rb.regions + p'.regions + l'.pool.regions) l'.pool.nextAddr := by
  unfold BufferPool.get at got
  rcases answer : p.pool.get with ⟨ptr, pool⟩
  rw [answer] at got
  cases ptr with
  | some found =>
    cases got
    have taken := ((SyncPool.get_perm answer).map RingBuffer.regions).sum_eq
    rw [map_cons, sum_cons] at taken
    simp only [regions, ← taken]
    exact Supplied.refl
  | none =>
    have kept : BufferPool.regions { p with pool := pool } = p.regions := by
      rw [regions, SyncPool.get_none answer, regions]
    cases got
    rw [kept, add_right_comm, add_comm p.regions]
    exact (newMagicBuffer_supplied p.defaultSize l).add p.regions

theorem put_le (done : p.put ptr = some p') :
    p'.regions ≤ ptr.elim 0 RingBuffer.regions + p.regions := by
  obtain ⟨rb, rfl, rest⟩ := bind_eq_some_iff.mp done
  obtain ⟨rb', cleared, rest⟩ := bind_eq_some_iff.mp rest
  have same : rb'.reset.regions = rb.regions := by
    rw [← zeroes_regions cleared]
    rfl
  dsimp only at rest
  split_ifs at rest <;> cases rest
  · simp only [regions, SyncPool.put, map_cons, sum_cons, same, elim_some]
    exact le_rfl
  · exact Multiset.le_add_left _ _

/-- A buffer that is handed out is empty, if the memory pool answers exactly. -/
theorem get_blank (default : 0 < p.defaultSize)
    (got : p.get (Ledger.source pageSize pos) l = (rb, p', l')) :
    p'.defaultSize = p.defaultSize ∧ (∃ made, l'.requests = l.requests ++ made) ∧
      ((∀ q ∈ l'.requests, q.Exact pageSize) → (∀ rb ∈ p.pool.items, rb.Blank) →
        rb.Blank ∧ ∀ rb ∈ p'.pool.items, rb.Blank) := by
  unfold BufferPool.get at got
  rcases answer : p.pool.get with ⟨ptr, pool⟩
  rw [answer] at got
  cases ptr with
  | some found =>
    cases got
    obtain ⟨member, rest⟩ := SyncPool.get_some answer
    exact ⟨rfl, ⟨[], (append_nil _).symm⟩,
      fun _ blank => ⟨blank _ member, fun rb kept => blank rb (rest rb kept)⟩⟩
  | none =>
    have kept := SyncPool.get_none answer
    obtain ⟨made, appended, fresh⟩ := newMagicBuffer_blank (l := l) pos default
    generalize RingBuffer.newMagicBuffer _ p.defaultSize l = result at got appended fresh
    cases got
    refine ⟨rfl, ⟨made, appended⟩, fun exact' blank => ⟨fresh fun q member => exact' q ?_, ?_⟩⟩
    · rw [appended]
      exact mem_append_right _ member
    · rw [kept]
      exact blank

/-- A buffer is blank when it comes back. -/
theorem put_blank (default : 0 < p.defaultSize) (done : p.put ptr = some p') :
    0 < p'.defaultSize ∧ ((∀ rb, ptr = some rb → rb.Sized) → (∀ rb ∈ p.pool.items, rb.Blank) →
      ∀ rb ∈ p'.pool.items, rb.Blank) := by
  obtain ⟨rb, rfl, rest⟩ := bind_eq_some_iff.mp done
  obtain ⟨rb', cleared, rest⟩ := bind_eq_some_iff.mp rest
  have blank : rb.Sized → rb'.reset.Blank := by
    intro sized
    obtain ⟨footing, size⟩ := zeroes_frame cleared
    exact ⟨sized.of_footing footing size, rfl, rfl, rfl⟩
  have positive : 0 < p'.defaultSize := by
    cases calibrated : p.calibration p.puts with
    | none =>
      simp only [calibrated] at rest
      split_ifs at rest <;> cases rest <;> exact default
    | some sizes =>
      simp only [calibrated] at rest
      split_ifs at rest <;> cases rest <;>
        exact Int.mul_pos (by decide) (Int.pow_pos (by decide))
  dsimp only at rest
  split_ifs at rest <;> cases rest
  · refine ⟨positive, fun sized old rb₁ member => ?_⟩
    rcases SyncPool.mem_put.mp member with rfl | kept
    · exact blank (sized rb rfl)
    · exact old rb₁ kept
  · exact ⟨positive, fun _ old => old⟩

end BufferPool

namespace Worker

/-- Every request for memory so far was answered with the size asked for. -/
def Exact (w : Worker) : Prop := ∀ q ∈ w.mem.requests, q.Exact w.cfg.pageSize

instance (w : Worker) : Decidable w.Exact :=
  inferInstanceAs (Decidable (∀ q ∈ w.mem.requests, q.Exact w.cfg.pageSize))

/-- The free buffers are empty, if the memory pool answers exactly. -/
def Shelved (w : Worker) : Prop :=
  0 < w.bufPool.defaultSize ∧ (w.Exact → ∀ rb ∈ w.bufPool.pool.items, rb.Blank)

/-- The regions behind all buffers and in the free lists. -/
def regions (w : Worker) : Multiset Nat :=
  ∑ o ∈ Finset.range w.nextObj, (w.heap o).regions + w.bufPool.regions + w.mem.pool.regions

/-- The regions behind the buffers of the other objects and behind the free buffers. -/
def regionsBut (w : Worker) (o : Nat) : Multiset Nat :=
  ∑ i ∈ Finset.range w.nextObj \ {o}, (w.heap i).regions + w.bufPool.regions

variable {chain o : Nat} {x : Session} {w : Worker} {q : Sqe}

theorem sum_update (heap : Nat → Connection) {n : Nat} (lt : o < n) (c : Connection) :
    ∑ i ∈ Finset.range n, (update heap o c i).regions =
      c.regions + ∑ i ∈ Finset.range n \ {o}, (heap i).regions := by
  have moved : ∀ i, (update heap o c i).regions =
      update (fun i => (heap i).regions) o c.regions i := by
    intro i
    by_cases same : i = o
    · subst same
      simp only [update_self]
    · simp only [update_of_ne same]
  simp only [moved]
  exact Finset.sum_update_of_mem (Finset.mem_range.mpr lt) _ _

theorem sum_extend (heap : Nat → Connection) (n : Nat) (c : Connection) :
    ∑ i ∈ Finset.range (n + 1), (update heap n c i).regions =
      c.regions + ∑ i ∈ Finset.range n, (heap i).regions := by
  rw [Finset.sum_range_succ, update_self, add_comm]
  congr 1
  refine Finset.sum_congr rfl fun i member => ?_
  rw [update_of_ne (Finset.mem_range.mp member).ne]

theorem regions_setSession (w : Worker) (lt : x.obj < w.nextObj) :
    (w.setSession x).regions = x.conn.regions + x.mem.pool.regions + w.regionsBut x.obj := by
  change ∑ i ∈ Finset.range w.nextObj, (update w.heap x.obj x.conn i).regions +
    w.bufPool.regions + x.mem.pool.regions = _
  rw [sum_update w.heap lt, regionsBut]
  abel

theorem regions_eq (w : Worker) (lt : o < w.nextObj) :
    w.regions = (w.heap o).regions + w.mem.pool.regions + w.regionsBut o := by
  have same := regions_setSession w (x := w.session o) lt
  rwa [setSession_session] at same

theorem regions_setConn (w : Worker) (lt : o < w.nextObj) {c : Connection}
    (same : c.regions = (w.heap o).regions) : (w.setConn o c).regions = w.regions := by
  change ∑ i ∈ Finset.range w.nextObj, (update w.heap o c i).regions +
    w.bufPool.regions + w.mem.pool.regions = w.regions
  rw [sum_update w.heap lt, same, ← sum_update w.heap lt, update_eq_self]
  rfl

/-- Work on one object duplicates no region, if it duplicates none of those it uses. -/
theorem supplied_setSession (w : Worker) (lt : x.obj < w.nextObj)
    (supplied : Supplied ((w.heap x.obj).regions + w.mem.pool.regions) w.mem.pool.nextAddr
      (x.conn.regions + x.mem.pool.regions) x.mem.pool.nextAddr) :
    Supplied w.regions w.mem.pool.nextAddr (w.setSession x).regions x.mem.pool.nextAddr := by
  rw [regions_setSession w lt, regions_eq w lt]
  exact supplied.add _

/-- The requests prepared or submitted and not yet completed. -/
def underway (w : Worker) : List Sqe := (w.inflight ++ w.sq).flatten

theorem underway_push (w : Worker) (q : Sqe) :
    underway { w with sq := Chains.push w.sq q } = w.underway ++ [q] := by
  change (w.inflight ++ Chains.push w.sq q).flatten = (w.inflight ++ w.sq).flatten ++ [q]
  rw [flatten_append, Chains.flatten_push, flatten_append, append_assoc]

theorem underway_of_push {w' : Worker} (inflight : w'.inflight = w.inflight)
    (sq : w'.sq = w.sq.push q) : w'.underway = w.underway ++ [q] := by
  rw [underway, inflight, sq]
  exact underway_push w q

theorem underway_submit (w : Worker) (chains : Nat) (phase : Phase) (shut : List Int) :
    (w.submit chains phase shut).underway = w.underway := by
  change (w.inflight ++ w.sq.take chains ++ w.sq.drop chains).flatten = _
  rw [append_assoc, take_append_drop]
  rfl

theorem mem_underway_of_getElem? {c : List Sqe} (found : w.inflight[chain]? = some c)
    (member : q ∈ c) : q ∈ w.underway :=
  mem_flatten.mpr ⟨c, mem_append_left _ (mem_of_getElem? found), member⟩

theorem mem_underway_of_set {old rest : List Sqe} {cq : List Cqe}
    (found : w.inflight[chain]? = some old) (sub : ∀ q ∈ rest, q ∈ old)
    (member : q ∈ underway { w with inflight := w.inflight.set chain rest, cq := cq }) :
    q ∈ w.underway := by
  obtain ⟨c, place, inside⟩ := mem_flatten.mp member
  rcases mem_append.mp place with set | prepared
  · rcases mem_or_eq_of_mem_set set with kept | rfl
    · exact mem_flatten.mpr ⟨c, mem_append_left _ kept, inside⟩
    · exact mem_underway_of_getElem? found (sub q inside)
  · exact mem_flatten.mpr ⟨c, mem_append_right _ prepared, inside⟩

theorem underway_setSession (w : Worker) {new : List Sqe}
    (pushed : x.sq = Chains.pushAll w.sq new) :
    (w.setSession x).underway = w.underway ++ new := by
  change (w.inflight ++ x.sq).flatten = (w.inflight ++ w.sq).flatten ++ new
  rw [pushed, flatten_append, Chains.flatten_pushAll, flatten_append, append_assoc]

variable {w w' : Worker} {o : Nat} {x : Session} {i : Nat} {bufPool p p' : BufferPool}
  {l' mem : Ledger} {cfg : Config} {inbound outbound : RingBuffer}

/-- Bytes stored by the kernel leave every size as it is. -/
theorem deposit_sized (sized : rb.Sized) (a : Address) (data : List UInt8) :
    (rb.deposit a data).Sized :=
  sized.of_footing (RingBuffer.deposit_footing rb a data) rfl

/-- Bytes stored by the kernel leave every memory where it is. -/
theorem regions_deposit (w : Worker) (a : Address) (data : List UInt8) :
    (w.deposit a data).regions = w.regions := by
  have buffer : ∀ rb : RingBuffer, (rb.deposit a data).regions = rb.regions :=
    fun rb => regions_of_footing (deposit_footing rb a data)
  have elim : ∀ ptr : Option RingBuffer, (ptr.map fun rb => rb.deposit a data).elim 0
      RingBuffer.regions = ptr.elim 0 RingBuffer.regions := by
    intro ptr
    cases ptr with
    | none => rfl
    | some rb => exact buffer rb
  have conn : ∀ c : Connection, (c.deposit a data).regions = c.regions := by
    intro c
    simp only [Connection.regions, Connection.deposit, elim]
  have free : BufferPool.regions { w.bufPool with
      pool := w.bufPool.pool.map fun rb => rb.deposit a data } = w.bufPool.regions := by
    simp only [BufferPool.regions, SyncPool.map, List.map_map, comp_def, buffer]
  have memory : (w.mem.deposit a data).pool.regions = w.mem.pool.regions := by
    simp only [Pool.regions, Ledger.deposit, SyncPool.map, List.map_map, comp_def, deposit_addr]
  simp only [regions, deposit, conn, free, memory]

/-- The object has been taken into use: it was a free one or is a new one, blank but for what
a free one remembers. -/
structure Taken (w : Worker) (o : Nat) (base : Connection) (w' : Worker) : Prop where
  source : (o ∈ w.connPool.items ∧ base = w.heap o ∧ w'.nextObj = w.nextObj) ∨
    (o = w.nextObj ∧ base = {} ∧ w'.nextObj = w.nextObj + 1)
  pool : (o :: w'.connPool.items).Perm w.connPool.items ∨
    (o = w.nextObj ∧ w'.connPool.items = w.connPool.items)

namespace Taken

variable {w w' : Worker} {o : Nat} {base : Connection}

/-- The object was not in use. -/
theorem ne (taken : Taken w o base w') (bound : i < w.nextObj) (used : i ∉ w.connPool.items) :
    i ≠ o := by
  rintro rfl
  rcases taken.source with ⟨member, _⟩ | ⟨rfl, _⟩
  · exact used member
  · exact lt_irrefl _ bound

theorem lt (taken : Taken w o base w') (bound : ∀ o ∈ w.connPool.items, o < w.nextObj) :
    o < w'.nextObj ∧ w.nextObj ≤ w'.nextObj := by
  rcases taken.source with ⟨member, _, next⟩ | ⟨rfl, _, next⟩
  · rw [next]
    exact ⟨bound o member, le_rfl⟩
  · rw [next]
    exact ⟨Nat.lt_succ_self _, Nat.le_succ _⟩

theorem pool_sub (taken : Taken w o base w') (nodup : w.connPool.items.Nodup)
    (bound : ∀ o ∈ w.connPool.items, o < w.nextObj) :
    w'.connPool.items.Nodup ∧ o ∉ w'.connPool.items ∧
      ∀ i ∈ w'.connPool.items, i ∈ w.connPool.items := by
  rcases taken.pool with perm | ⟨rfl, same⟩
  · have all := perm.nodup_iff.mpr nodup
    exact ⟨(nodup_cons.mp all).2, (nodup_cons.mp all).1,
      fun i member => perm.subset (mem_cons_of_mem _ member)⟩
  · rw [same]
    exact ⟨nodup, fun member => absurd (bound _ member) (lt_irrefl _), fun i member => member⟩

end Taken

/-- The connection object a worker obtains: a free one or a new one, with two buffers. -/
structure Obtained (w : Worker) (o : Nat) (base : Connection) (w' : Worker) : Prop
    extends Taken w o base w' where
  conn : ∃ inbound outbound, w'.heap o = { base with
    inboundBuffer := some inbound, outboundBuffer := some outbound }
  frame : w' = { w with heap := w'.heap, nextObj := w'.nextObj, connPool := w'.connPool,
                        bufPool := w'.bufPool, mem := w'.mem }
  others : ∀ i, i ≠ o → w'.heap i = w.heap i
  requests : ∃ made, w'.mem.requests = w.mem.requests ++ made
  supplied : Supplied w.regions w.mem.pool.nextAddr w'.regions w'.mem.pool.nextAddr
  blank : w.Shelved → w'.Shelved ∧ (w'.Exact → (w'.heap o).Blank)

theorem BufferPool.get_requests (got : p.get cfg.source l = (rb, p', l')) :
    ∃ made, l'.requests = l.requests ++ made := by
  unfold BufferPool.get at got
  rcases answer : p.pool.get with ⟨ptr, pool⟩
  rw [answer] at got
  cases ptr with
  | some found =>
    cases got
    exact ⟨[], (append_nil _).symm⟩
  | none =>
    cases got
    obtain ⟨made, appended, _⟩ := Tenants.newMagicBuffer_fits cfg.pageSize_pos p.defaultSize l
    exact ⟨made, appended⟩

/-- Two buffers have been handed out: no region is duplicated, the requests for memory are
written down, and both buffers are empty if those were answered exactly. -/
structure BufferPool.Handed (cfg : Config) (p : BufferPool) (l : Ledger)
    (inbound outbound : RingBuffer) (p' : BufferPool) (l' : Ledger) : Prop where
  supplied : Supplied (p.regions + l.pool.regions) l.pool.nextAddr
    (inbound.regions + outbound.regions + (p'.regions + l'.pool.regions)) l'.pool.nextAddr
  requests : ∃ made, l'.requests = l.requests ++ made
  blank : 0 < p.defaultSize → 0 < p'.defaultSize ∧
    ((∀ q ∈ l'.requests, q.Exact cfg.pageSize) → (∀ rb ∈ p.pool.items, rb.Blank) →
      inbound.Blank ∧ outbound.Blank ∧ ∀ rb ∈ p'.pool.items, rb.Blank)

/-- Two buffers are handed out. -/
theorem BufferPool.handed {p₁ : BufferPool} {l₁ : Ledger}
    (first : p.get cfg.source l = (inbound, p₁, l₁))
    (second : p₁.get cfg.source l₁ = (outbound, p', l')) :
    Handed cfg p l inbound outbound p' l' where
  supplied := by
    have one := get_supplied first
    have two := (get_supplied second).add inbound.regions
    rw [show inbound.regions + p₁.regions + l₁.pool.regions =
      p₁.regions + l₁.pool.regions + inbound.regions by abel] at one
    rw [show inbound.regions + outbound.regions + (p'.regions + l'.pool.regions) =
      outbound.regions + p'.regions + l'.pool.regions + inbound.regions by abel]
    exact one.trans two
  requests := by
    obtain ⟨made, appended⟩ := get_requests first
    obtain ⟨more, appended'⟩ := get_requests second
    exact ⟨made ++ more, by rw [appended', appended, append_assoc]⟩
  blank := by
    intro default
    obtain ⟨same, _, answer₁⟩ := get_blank default first
    have default₁ : 0 < p₁.defaultSize := by
      rw [same]
      exact default
    obtain ⟨same', ⟨more, appended⟩, answer₂⟩ := get_blank default₁ second
    refine ⟨by rwa [same'], fun exact' free => ?_⟩
    have exact₁ : ∀ q ∈ l₁.requests, q.Exact cfg.pageSize := by
      intro q member
      refine exact' q ?_
      rw [appended]
      exact mem_append_left _ member
    obtain ⟨blank₁, shelf₁⟩ := answer₁ exact₁ free
    obtain ⟨blank₂, shelf₂⟩ := answer₂ exact' shelf₁
    exact ⟨blank₁, blank₂, shelf₂⟩

/-- A worker whose buffers have been handed out from its shelf. -/
theorem Shelved.handed (shelved : w.Shelved)
    (handed : BufferPool.Handed w.cfg w.bufPool w.mem inbound outbound bufPool mem) :
    0 < bufPool.defaultSize ∧ ((∀ q ∈ mem.requests, q.Exact w.cfg.pageSize) →
      inbound.Blank ∧ outbound.Blank ∧ ∀ rb ∈ bufPool.pool.items, rb.Blank) := by
  obtain ⟨default, blank⟩ := handed.blank shelved.1
  refine ⟨default, fun exact' => blank exact' (shelved.2 fun q member => exact' q ?_)⟩
  obtain ⟨made, whole⟩ := handed.requests
  rw [whole]
  exact mem_append_left _ member

/-- The regions when one object has been given two buffers. -/
theorem supplied_of_buffers (w : Worker) {objects : Multiset Nat}
    (supplied : Supplied (w.bufPool.regions + w.mem.pool.regions) w.mem.pool.nextAddr
      (inbound.regions + outbound.regions + (bufPool.regions + mem.pool.regions))
      mem.pool.nextAddr)
    (le : objects ≤ inbound.regions + outbound.regions +
      ∑ i ∈ Finset.range w.nextObj, (w.heap i).regions) :
    Supplied w.regions w.mem.pool.nextAddr (objects + bufPool.regions + mem.pool.regions)
      mem.pool.nextAddr := by
  have framed := supplied.add (∑ i ∈ Finset.range w.nextObj, (w.heap i).regions)
  rw [add_comm (w.bufPool.regions + w.mem.pool.regions), ← add_assoc] at framed
  refine framed.le_trans ?_
  calc objects + bufPool.regions + mem.pool.regions
      = objects + (bufPool.regions + mem.pool.regions) := add_assoc ..
    _ ≤ inbound.regions + outbound.regions + ∑ i ∈ Finset.range w.nextObj, (w.heap i).regions +
        (bufPool.regions + mem.pool.regions) := Multiset.add_le_add_right le
    _ = _ := add_right_comm ..

/-- The steps of `getConnection`. -/
theorem getConnection_obtained (w : Worker) (bound : ∀ o ∈ w.connPool.items, o < w.nextObj) :
    ∃ base, Obtained w w.getConnection.1 base w.getConnection.2 := by
  rcases answer : w.connPool.get with ⟨ptr, connPool⟩
  rcases first : w.bufPool.get w.cfg.source w.mem with ⟨inbound, bufPool₁, mem₁⟩
  rcases second : bufPool₁.get w.cfg.source mem₁ with ⟨outbound, bufPool, mem⟩
  have handed := BufferPool.handed first second
  have blank : w.Shelved → _ := fun shelved => shelved.handed handed
  cases ptr with
  | some o =>
    have taken := SyncPool.get_perm answer
    have member : o ∈ w.connPool.items := taken.subset mem_cons_self
    have result : w.getConnection = (o, { w with
        heap := update w.heap o { w.heap o with
          inboundBuffer := some inbound, outboundBuffer := some outbound }
        connPool := connPool, bufPool := bufPool, mem := mem }) := by
      simp only [getConnection, answer, first, second]
      rfl
    rw [result]
    refine ⟨w.heap o, ⟨Or.inl ⟨member, rfl, rfl⟩, Or.inl taken⟩, ⟨inbound, outbound,
      update_self ..⟩, rfl, fun i ne => update_of_ne ne ..,
      handed.requests, ?_, ?_⟩
    · refine supplied_of_buffers w handed.supplied ?_
      rw [sum_update w.heap (bound o member)]
      exact Multiset.add_le_add_left (Finset.sum_le_sum_of_subset Finset.sdiff_subset)
    · intro shelved
      obtain ⟨default, blank⟩ := blank shelved
      refine ⟨⟨default, fun exact' => (blank exact').2.2⟩, fun exact' => ?_⟩
      obtain ⟨blank₁, blank₂, _⟩ := blank exact'
      simp only [update_self]
      exact ⟨⟨inbound, rfl, blank₁⟩, outbound, rfl, blank₂⟩
  | none =>
    have kept := SyncPool.get_none answer
    have result : w.getConnection = (w.nextObj, { w with
        heap := update w.heap w.nextObj
          { inboundBuffer := some inbound, outboundBuffer := some outbound }
        nextObj := w.nextObj + 1, connPool := connPool, bufPool := bufPool, mem := mem }) := by
      simp only [getConnection, answer, first, second]
      rfl
    rw [result]
    refine ⟨{}, ⟨Or.inr ⟨rfl, rfl, rfl⟩, Or.inr ⟨rfl, kept⟩⟩, ⟨inbound, outbound,
      update_self ..⟩, rfl, fun i ne => update_of_ne ne ..,
      handed.requests, ?_, ?_⟩
    · exact supplied_of_buffers w handed.supplied (le_of_eq (sum_extend w.heap w.nextObj _))
    · intro shelved
      obtain ⟨default, blank⟩ := blank shelved
      refine ⟨⟨default, fun exact' => (blank exact').2.2⟩, fun exact' => ?_⟩
      obtain ⟨blank₁, blank₂, _⟩ := blank exact'
      simp only [update_self]
      exact ⟨⟨inbound, rfl, blank₁⟩, outbound, rfl, blank₂⟩

/-- A connection entered under a key that was not registered. -/
structure Entered (w : Worker) (key fd : Int) (o : Nat) (base : Connection) (w' : Worker) : Prop
    extends Taken w o base w' where
  absent : w.connections.lookup key = none
  conn : ∃ inbound outbound, w'.heap o = { base with
    inboundBuffer := some inbound, outboundBuffer := some outbound, fd := fd, key := key
    life := w.nextLife }
  frame : w' = { w with heap := w'.heap, nextObj := w'.nextObj, connPool := w'.connPool,
                        bufPool := w'.bufPool, mem := w'.mem
                        connections := w.connections.insert key o
                        connectionsCount := addInt32 w.connectionsCount 1
                        nextLife := w.nextLife + 1 }
  others : ∀ i, i ≠ o → w'.heap i = w.heap i
  requests : ∃ made, w'.mem.requests = w.mem.requests ++ made
  supplied : Supplied w.regions w.mem.pool.nextAddr w'.regions w'.mem.pool.nextAddr
  blank : w.Shelved → w'.Shelved ∧ (w'.Exact → (w'.heap o).Blank)

variable {key fd : Int} {base : Connection} {k : Int}

/-- `connectionManager.get` finds the connection or enters a new one. -/
theorem get_cases (w : Worker) (bound : ∀ o ∈ w.connPool.items, o < w.nextObj) (key fd : Int) :
    (∃ o, w.connections.lookup key = some o ∧ w.get key fd = (o, w)) ∨
      ∃ o base w', Entered w key fd o base w' ∧ w.get key fd = (o, w') := by
  unfold get
  cases found : w.connections.lookup key with
  | some o => exact Or.inl ⟨o, rfl, rfl⟩
  | none =>
    obtain ⟨base, obtained⟩ := getConnection_obtained w bound
    rcases got : w.getConnection with ⟨o, w₁⟩
    rw [got] at obtained
    change Obtained w o base w₁ at obtained
    obtain ⟨inbound, outbound, conn⟩ := obtained.conn
    have lt : o < w₁.nextObj := (obtained.lt bound).1
    have fields := obtained.frame
    refine Or.inr ⟨o, base, w₁.register key o { w₁.heap o with fd := fd, key := key }, ?_, rfl⟩
    refine ⟨⟨obtained.source, obtained.pool⟩, found, ⟨inbound, outbound, ?_⟩, ?_, ?_,
      obtained.requests, ?_, ?_⟩
    · have life : w₁.nextLife = w.nextLife := by rw [fields]
      simp only [register, setConn, update_self, conn, life]
    · rw [fields]
      rfl
    · intro i ne
      simp only [register, setConn, update_of_ne ne]
      exact obtained.others i ne
    · have regions : (w₁.register key o { w₁.heap o with fd := fd, key := key }).regions =
          w₁.regions := regions_setConn w₁ lt rfl
      rw [regions]
      exact obtained.supplied
    · intro shelved
      obtain ⟨⟨default, free⟩, blank⟩ := obtained.blank shelved
      refine ⟨⟨default, free⟩, fun exact' => ?_⟩
      simp only [register, setConn, update_self]
      exact blank exact'

namespace Entered

variable {w w' : Worker}

variable (entered : Entered w key fd o base w')
include entered

theorem lookup_self : w'.connections.lookup key = some o := by
  rw [entered.frame]
  exact AList.lookup_insert _

theorem lookup_ne (ne : k ≠ key) : w'.connections.lookup k = w.connections.lookup k := by
  rw [entered.frame]
  exact AList.lookup_insert_ne ne

/-- What is registered afterwards is the new connection or was so before. -/
theorem lookup_cases (found : w'.connections.lookup k = some i) :
    (k = key ∧ i = o) ∨ (k ≠ key ∧ w.connections.lookup k = some i) := by
  by_cases same : k = key
  · subst same
    cases found.symm.trans entered.lookup_self
    exact Or.inl ⟨rfl, rfl⟩
  · rw [entered.lookup_ne same] at found
    exact Or.inr ⟨same, found⟩

theorem life : (w'.heap o).life = w.nextLife := by
  obtain ⟨inbound, outbound, conn⟩ := entered.conn
  rw [conn]

end Entered

/-- A look-up leaves the registered connections where they are. -/
theorem get_keeps (bound : ∀ o ∈ w.connPool.items, o < w.nextObj)
    (got : w.get key fd = (o, w')) {k : Int} {i : Nat}
    (found : w.connections.lookup k = some i) : w'.connections.lookup k = some i := by
  rcases get_cases w bound key fd with ⟨o', _, same⟩ | ⟨o', base, w₁, entered, same⟩
  · cases got.symm.trans same
    exact found
  · cases got.symm.trans same
    rw [entered.lookup_ne]
    · exact found
    · rintro rfl
      rw [entered.absent] at found
      cases found

/-- The connection registered under the key has been given up: its object and its
buffers are free, and its life is over. -/
structure Released (w : Worker) (key : Int) (o : Nat) (w' : Worker) : Prop where
  found : w.connections.lookup key = some o
  conn : w'.heap o = { w.heap o with
    inboundBuffer := none, outboundBuffer := none, fd := 0, key := 0, state := .invalid
    msgHdr := none, rawSockaddr := none, mode := .kernelSpace, closed := false, network := .tcp }
  others : ∀ i, i ≠ o → w'.heap i = w.heap i
  frame : w' = { w with
    heap := w'.heap, bufPool := w'.bufPool, connPool := w.connPool.put o
    connections := w.connections.erase key, connectionsCount := addInt32 w.connectionsCount (-1)
    releaseFdSet := w.releaseFdSet.erase key, keyPool := w'.keyPool
    histories := update w.histories (w.heap o).life
      { w.histories (w.heap o).life with released := true } }
  regions : w'.regions ≤ w.regions
  shelved : w.Shelved → (w.Exact → (w.heap o).Sized) → w'.Shelved

/-- The steps of `putConnection`. -/
theorem putConnection_eq (done : w.putConnection o = some w') (lt : o < w.nextObj) :
    ∃ bufPool : BufferPool, w' = { w.setConn o { w.heap o with
      inboundBuffer := none, outboundBuffer := none, fd := 0, key := 0, state := .invalid
      msgHdr := none, rawSockaddr := none, mode := .kernelSpace, closed := false
      network := .tcp } with bufPool := bufPool, connPool := w.connPool.put o } ∧
      w'.regions ≤ w.regions ∧ (w.Shelved → (w.Exact → (w.heap o).Sized) → w'.Shelved) := by
  obtain ⟨first, put, rest⟩ := bind_eq_some_iff.mp done
  obtain ⟨bufPool, put', last⟩ := bind_eq_some_iff.mp rest
  cases last
  have shelved : w.Shelved → (w.Exact → (w.heap o).Sized) →
      0 < bufPool.defaultSize ∧ (w.Exact → ∀ rb ∈ bufPool.pool.items, rb.Blank) := by
    intro shelved sized
    obtain ⟨default₁, blank₁⟩ := put_blank shelved.1 put
    obtain ⟨default₂, blank₂⟩ := put_blank default₁ put'
    refine ⟨default₂, fun exact' => ?_⟩
    obtain ⟨⟨inbound, present, sized₁⟩, outbound, present', sized₂⟩ := sized exact'
    refine blank₂ ?_ (blank₁ ?_ (shelved.2 exact'))
    · intro rb here
      cases present'.symm.trans here
      exact sized₂
    · intro rb here
      cases present.symm.trans here
      exact sized₁
  refine ⟨bufPool, rfl, ?_, fun old sized => ⟨(shelved old sized).1, (shelved old sized).2⟩⟩
  have le : bufPool.regions ≤ (w.heap o).regions + w.bufPool.regions := by
    calc bufPool.regions
        ≤ (w.heap o).outboundBuffer.elim 0 RingBuffer.regions + first.regions := put_le put'
      _ ≤ (w.heap o).outboundBuffer.elim 0 RingBuffer.regions +
          ((w.heap o).inboundBuffer.elim 0 RingBuffer.regions + w.bufPool.regions) :=
          Multiset.add_le_add_left (put_le put)
      _ = (w.heap o).regions + w.bufPool.regions := by
          rw [Connection.regions]
          abel
  rw [regions_eq w lt]
  simp only [Worker.regions, setConn]
  rw [sum_update w.heap lt]
  simp only [Connection.regions, elim_none, add_zero, zero_add]
  calc ∑ i ∈ Finset.range w.nextObj \ {o}, (w.heap i).regions + bufPool.regions +
        w.mem.pool.regions
      ≤ ∑ i ∈ Finset.range w.nextObj \ {o}, (w.heap i).regions +
        ((w.heap o).regions + w.bufPool.regions) + w.mem.pool.regions :=
        Multiset.add_le_add_right (Multiset.add_le_add_left le)
    _ = _ := by
        rw [regionsBut, Connection.regions]
        abel

/-- `connectionManager.release` gives up what is registered under the key, if anything. -/
theorem release_cases (done : w.release key = some w')
    (bound : ∀ {o : Nat}, w.connections.lookup key = some o → o < w.nextObj) :
    (w.connections.lookup key = none ∧ w' = w) ∨ ∃ o, Released w key o w' := by
  unfold release at done
  cases found : w.connections.lookup key with
  | none =>
    rw [found] at done
    cases done
    exact Or.inl ⟨rfl, rfl⟩
  | some o =>
    rw [found] at done
    obtain ⟨w₁, put, last⟩ := bind_eq_some_iff.mp done
    cases last
    obtain ⟨bufPool, rfl, le, shelved⟩ := putConnection_eq put (bound found)
    exact Or.inr ⟨o, found, update_self .., fun i ne => update_of_ne ne .., rfl,
      le, fun old sized => ⟨(shelved ⟨old.1, old.2⟩ sized).1, (shelved ⟨old.1, old.2⟩ sized).2⟩⟩

namespace Released

variable {w w' : Worker}

theorem lookup_self (released : Released w key o w') : w'.connections.lookup key = none := by
  rw [released.frame]
  exact AList.lookup_erase ..

theorem lookup_ne (released : Released w key o w') (ne : k ≠ key) :
    w'.connections.lookup k = w.connections.lookup k := by
  rw [released.frame]
  exact AList.lookup_erase_ne ne

/-- What is registered afterwards was so before, under another key. -/
theorem of_lookup (released : Released w key o w') (found : w'.connections.lookup k = some i) :
    k ≠ key ∧ w.connections.lookup k = some i := by
  have other : k ≠ key := by
    rintro rfl
    rw [released.lookup_self] at found
    cases found
  exact ⟨other, (released.lookup_ne other).symm.trans found⟩

end Released

/-- The registry is in order: no object is under two keys or free, and each knows its key. -/
structure Indexed (w : Worker) : Prop where
  inj : ∀ {k k' : Int} {o : Nat}, w.connections.lookup k = some o →
    w.connections.lookup k' = some o → k = k'
  free : ∀ {k : Int} {o : Nat}, w.connections.lookup k = some o → o ∉ w.connPool.items
  bound : ∀ {k : Int} {o : Nat}, w.connections.lookup k = some o → o < w.nextObj
  poolNodup : w.connPool.items.Nodup
  poolBound : ∀ o ∈ w.connPool.items, o < w.nextObj
  key : ∀ {k : Int} {o : Nat}, w.connections.lookup k = some o → (w.heap o).key = k

namespace Indexed

variable {w w' : Worker}

variable (indexed : w.Indexed)
include indexed

/-- An object that is taken was not registered. -/
theorem unused (taken : Taken w o base w') (found : w.connections.lookup k = some i) : i ≠ o :=
  taken.ne (indexed.bound found) (indexed.free found)

theorem pool_sub (taken : Taken w o base w') :
    w'.connPool.items.Nodup ∧ o ∉ w'.connPool.items ∧
      ∀ i ∈ w'.connPool.items, i ∈ w.connPool.items :=
  taken.pool_sub indexed.poolNodup indexed.poolBound

/-- An object that was taken is entered under a key. -/
theorem entered (taken : Taken w o base w')
    (lookup : ∀ {k : Int} {i : Nat}, w'.connections.lookup k = some i →
      (k = key ∧ i = o) ∨ (k ≠ key ∧ w.connections.lookup k = some i)) (own : (w'.heap o).key = key)
    (others : ∀ i, i ≠ o → (w'.heap i).key = (w.heap i).key) : w'.Indexed := by
  obtain ⟨nodup, notMem, sub⟩ := indexed.pool_sub taken
  obtain ⟨lt, mono⟩ := taken.lt indexed.poolBound
  refine ⟨?_, ?_, ?_, nodup, ?_, ?_⟩
  · intro k k' i found found'
    rcases lookup found with ⟨rfl, rfl⟩ | ⟨_, before⟩
    · rcases lookup found' with ⟨rfl, _⟩ | ⟨_, before'⟩
      · rfl
      · exact absurd rfl (indexed.unused taken before')
    · rcases lookup found' with ⟨_, rfl⟩ | ⟨_, before'⟩
      · exact absurd rfl (indexed.unused taken before)
      · exact indexed.inj before before'
  · intro k i found member
    rcases lookup found with ⟨_, rfl⟩ | ⟨_, before⟩
    · exact notMem member
    · exact indexed.free before (sub i member)
  · intro k i found
    rcases lookup found with ⟨_, rfl⟩ | ⟨_, before⟩
    · exact lt
    · exact (indexed.bound before).trans_le mono
  · exact fun i member => (indexed.poolBound i (sub i member)).trans_le mono
  · intro k i found
    rcases lookup found with ⟨rfl, rfl⟩ | ⟨_, before⟩
    · exact own
    · exact (others i (indexed.unused taken before)).trans (indexed.key before)

/-- What is registered after a release was so before, as another object and as it is. -/
theorem of_released (released : Released w key o w') (found : w'.connections.lookup k = some i) :
    k ≠ key ∧ w.connections.lookup k = some i ∧ i ≠ o ∧ w'.heap i = w.heap i := by
  obtain ⟨other, before⟩ := released.of_lookup found
  have ne : i ≠ o := by
    rintro rfl
    exact other (indexed.inj before released.found)
  exact ⟨other, before, ne, released.others i ne⟩

/-- A release keeps the registry in order. -/
theorem released (released : Released w key o w') : w'.Indexed := by
  have pool : w'.connPool.items = o :: w.connPool.items := by
    rw [released.frame]
    rfl
  have nextObj : w'.nextObj = w.nextObj := by rw [released.frame]
  refine ⟨?_, ?_, ?_, ?_, ?_, ?_⟩
  · intro k k' i found found'
    exact indexed.inj (released.of_lookup found).2 (released.of_lookup found').2
  · intro k i found
    obtain ⟨_, before, ne, _⟩ := indexed.of_released released found
    rw [pool]
    exact fun member => (mem_cons.mp member).elim ne (indexed.free before)
  · intro k i found
    rw [nextObj]
    exact indexed.bound (released.of_lookup found).2
  · rw [pool]
    exact nodup_cons.mpr ⟨indexed.free released.found, indexed.poolNodup⟩
  · rw [pool, nextObj]
    exact forall_mem_cons.mpr ⟨indexed.bound released.found, indexed.poolBound⟩
  · intro k i found
    obtain ⟨_, before, _, heap⟩ := indexed.of_released released found
    rw [heap]
    exact indexed.key before

end Indexed

/-- Only the registry has changed: the connections, their objects and what these hold. -/
def Registers (w w' : Worker) : Prop :=
  w' = { w with
    heap := w'.heap, nextObj := w'.nextObj, connPool := w'.connPool, bufPool := w'.bufPool
    mem := w'.mem, connections := w'.connections, connectionsCount := w'.connectionsCount
    releaseFdSet := w'.releaseFdSet, keyPool := w'.keyPool
    socketAddresses := w'.socketAddresses, histories := w'.histories, nextLife := w'.nextLife }

theorem Entered.registers (entered : Entered w key fd o base w') : Registers w w' := by
  have frame := entered.frame
  rw [Registers, frame]

theorem Released.registers (released : Released w key o w') : Registers w w' := by
  have frame := released.frame
  rw [Registers, frame]

/-- The pooled connection objects are in no state. -/
def Rested (w : Worker) : Prop := ∀ o ∈ w.connPool.items, (w.heap o).state = .invalid

namespace Rested

/-- A registered connection has changed. -/
theorem update (rested : w.Rested) (indexed : w.Indexed) (found : w.connections.lookup key = some o)
    (pool : w'.connPool = w.connPool) (others : ∀ i, i ≠ o → w'.heap i = w.heap i) : w'.Rested := by
  intro i member
  rw [pool] at member
  rw [others i fun same => indexed.free found (same ▸ member)]
  exact rested i member

theorem entered (rested : w.Rested) (indexed : w.Indexed) (entered : Entered w key fd o base w') :
    w'.Rested ∧ (w'.heap o).state = .invalid := by
  obtain ⟨_, unpooled, sub⟩ := indexed.pool_sub entered.toTaken
  refine ⟨fun i member => ?_, ?_⟩
  · rw [entered.others i fun same => unpooled (same ▸ member)]
    exact rested i (sub i member)
  · obtain ⟨inbound, outbound, conn⟩ := entered.conn
    rw [conn]
    rcases entered.source with ⟨member, rfl, _⟩ | ⟨_, rfl, _⟩
    · exact rested o member
    · rfl

theorem released (rested : w.Rested) (released : Released w key o w') : w'.Rested := by
  intro i member
  by_cases same : i = o
  · rw [same, released.conn]
  · rw [released.others i same]
    refine rested i ((mem_cons.mp ?_).resolve_left same)
    rw [released.frame] at member
    exact member

end Rested

theorem init_indexed (cfg : Config) (streams : Streams) : (init cfg streams).Indexed := by
  have nothing : ∀ {k : Int} {o : Nat}, ¬ (init cfg streams).connections.lookup k = some o := by
    intro k o found
    rw [init, AList.lookup_empty] at found
    cases found
  exact ⟨fun found => absurd found nothing, fun found => absurd found nothing,
    fun found => absurd found nothing, nodup_nil, by simp [init, SyncPool.empty],
    fun found => absurd found nothing⟩

/-- `closeConn` on a registered connection gives it up after `OnClose`. -/
theorem closeConn_released (stream : (w.heap o).network = .tcp)
    (found : w.connections.lookup (w.heap o).key = some o) (lt : o < w.nextObj)
    {syscallClose : Bool} {err : Option Error} {ops : List ConnOp}
    (done : w.closeConn o syscallClose err ops = some w') :
    Released (w.setSession ((w.session o).ended syscallClose err)) (w.heap o).key o w' := by
  obtain ⟨x, closed, rest⟩ := bind_eq_some_iff.mp done
  rw [Session.closeConn_eq stream] at closed
  cases closed
  have bound : ∀ {o' : Nat}, w.connections.lookup (w.heap o).key = some o' → o' < w.nextObj := by
    intro o' found'
    cases found.symm.trans found'
    exact lt
  rcases release_cases rest bound with ⟨absent, _⟩ | ⟨o', released⟩
  · change w.connections.lookup (w.heap o).key = none at absent
    rw [found] at absent
    cases absent
  · have same : some o = some o' := found.symm.trans released.found
    cases same
    exact released

end Worker

end Gain
