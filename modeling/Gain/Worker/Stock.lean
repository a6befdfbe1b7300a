import Gain.Worker.Listening

/-! # The memory of a datagram server

The receive of the main connection goes to the front of an empty buffer that no
other connection has. What the kernel stores there is the datagram when its
completion is handled, and moves with the buffer to the fork.
-/

namespace Gain

open Function List Option RingBuffer VirtualMem

variable {pageSize : Nat} {l : Layout}

namespace RingBuffer

theorem Blank.of_idle {rb : RingBuffer} (idle : rb.Idle) (sized : rb.Sized) : rb.Blank :=
  ⟨sized, idle.r, idle.w, idle.isEmpty⟩

theorem newMagicBuffer_paged {pos : 0 < pageSize} {size : Int} (some' : 0 < size) (l : Ledger) :
    (newMagicBuffer (Ledger.source pageSize pos) size l).1.Paged pageSize := by
  unfold newMagicBuffer
  rw [if_neg some'.ne']
  exact pageSize_le_adjustBufferSize (adjustBufferSize_pos pos some')

end RingBuffer

/-- An empty buffer of one page has room for a read. -/
theorem Layout.growIfUnsufficientFreeSpace_paged {σ : Type} {source : MemSource σ}
    (page : minRead ≤ pageSize) (empty : l.isEmpty = true) (paged : l.toRing.Paged pageSize)
    (s : σ) :
    l.toRing.growIfUnsufficientFreeSpace source s = some (l.toRing, s) := by
  have room : ¬ l.toRing.available < minRead := by
    rw [Layout.toRing_available, l.count_of_isEmpty empty]
    have size : (pageSize : Int) ≤ l.mem.size := paged
    omega
  simp only [RingBuffer.growIfUnsufficientFreeSpace, RingBuffer.growWhen, room, decide_false,
    Bool.false_eq_true, if_false]

/-- What the kernel has received: the bytes and the sender's address. -/
structure Datagram where
  bytes : List UInt8
  sender : Option NetAddr
  deriving DecidableEq

namespace Worker

variable {m : Nat} {last : Option Datagram} {w w' : Worker} {f o : Nat} {c : Cqe}
  {base : Connection} {grown inbound outbound : RingBuffer}

/-- The datagram that arrives with a completion. -/
def arrival (w : Worker) : Label → Option Datagram
  | .complete chain res _ data peer =>
    match w.inflight[chain]? with
    | some (q :: _) => if q.flag = .read ∧ 0 ≤ res then some ⟨data, peer⟩ else none
    | _ => none
  | _ => none

/-- A step, with the last datagram that has arrived. -/
def noted (s : Worker × Option Datagram) (label : Label) : Option (Worker × Option Datagram) :=
  (s.1.step label).map fun w => (w, (s.1.arrival label).or s.2)

/-- A registered connection has lived, and both its buffers are there. -/
structure Furnished (pageSize : Nat) (exact' : Prop) (nextLife : Nat) (c : Connection) : Prop where
  paged : c.Paged pageSize
  sized : exact' → c.Sized
  life : c.life < nextLife

/-- The memory of a datagram server with synchronous handlers, whose main connection is the
object `m` and where `last` was the last datagram to arrive. -/
structure Stocked (m : Nat) (last : Option Datagram) (w : Worker) : Prop where
  page : minRead ≤ w.cfg.pageSize
  sync : w.cfg.asyncHandler = false
  idle : w.holders = []
  distinct : Supplied.Distinct w.regions w.mem.pool.nextAddr
  shelved : w.Shelved
  free : ∀ rb ∈ w.bufPool.pool.items, rb.Paged w.cfg.pageSize
  conns : ∀ {k : Int} {o : Nat}, w.connections.lookup k = some o →
    Furnished w.cfg.pageSize w.Exact w.nextLife (w.heap o)
  unborn : ∀ life, w.nextLife ≤ life →
    (w.histories life).word = [] ∧ (w.histories life).written = []
  -- a receive goes to the front of an empty buffer
  primed : w.Exact → ∀ q ∈ w.underway, q.key = 1 → ∃ l : Layout,
    (w.heap m).inboundBuffer = some l.toRing ∧ l.isEmpty = true ∧
      q.addr = ⟨l.mem.addr, l.w⟩ ∧ q.len = l.mem.size
  -- what was received lies there
  arrived : w.Exact → ∀ c ∈ w.cq, c.sqe.key = 1 → 0 ≤ c.res → ∃ l : Layout,
    (w.heap m).inboundBuffer = some l.toRing ∧ l.isEmpty = true ∧
      c.res = c.data.length ∧ c.data.length ≤ l.mem.size ∧ l.spare c.data.length = c.data ∧
      last = some ⟨c.data, (w.heap m).rawSockaddr⟩

/-- What was asked of the memory pool before is part of what was asked. -/
theorem Exact.of_append {made : List Request} (requests : w'.mem.requests = w.mem.requests ++ made)
    (config : w'.cfg = w.cfg) (exact' : w'.Exact) : w.Exact := by
  intro q member
  rw [← config]
  refine exact' q ?_
  rw [requests]
  exact mem_append_left _ member

/-- A send from the front of an outbound buffer carries its content. -/
theorem fetch_content (distinct : Supplied.Distinct w.regions w.mem.pool.nextAddr)
    (lt : o < w.nextObj) (present : (w.heap o).outboundBuffer = some l.toRing) :
    w.fetch ⟨l.mem.addr, l.r⟩ l.count = some l.content := by
  rw [fetch_eq distinct (mem_memories_of_outbound lt present rfl) rfl]
  have whole := l.toRing_slice_content le_rfl
  rw [← l.content_length, take_length] at whole
  rw [← l.content_length]
  exact whole

/-- The fork holds the bytes that were stored in the empty buffer of the main connection. -/
theorem Parted.content (parted : Parted w c o f base inbound grown outbound w')
    (arrived : (w.heap o).inboundBuffer = some l.toRing) (empty : l.isEmpty = true)
    (count : c.res = c.data.length) (fits : c.data.length ≤ l.mem.size)
    (stored : l.spare c.data.length = c.data) :
    ∃ l' : Layout, (w'.heap f).inboundBuffer = some l'.toRing ∧ l'.content = c.data := by
  obtain ⟨rb, rb', out, front, present, counted, _, _, conn⟩ := parted.fork
  cases present.symm.trans arrived
  have room : l.count + c.data.length ≤ l.mem.size := by
    rw [l.count_of_isEmpty empty, Nat.zero_add]
    exact fits
  obtain ⟨l', moved, content, _⟩ := l.toRing_advanceWrite room
  rw [count] at counted
  cases counted.symm.trans moved
  refine ⟨l', by rw [conn], ?_⟩
  rw [content, l.content_eq_nil_iff.mpr empty, stored, nil_append]

namespace Stocked

variable {k : Int} {o : Nat} {x : Session} {inflight : Chains} {cq : List Cqe}

variable (stocked : Stocked m last w)
include stocked

/-- Requests are submitted, completions handled, and the phase changes. -/
theorem queues {phase : Phase} {sq : Chains} {shut : List Int}
    (underway : ∀ q ∈ (inflight ++ sq).flatten, q ∈ w.underway) (sub : ∀ c ∈ cq, c ∈ w.cq) :
    Stocked m last
      { w with phase := phase, sq := sq, inflight := inflight, cq := cq, shut := shut } :=
  { stocked with
    primed := fun exact' q member => stocked.primed exact' q (underway q member)
    arrived := fun exact' c member => stocked.arrived exact' c (sub c member) }

theorem popped (first : w.cq = c :: cq) (phase : Phase) :
    Stocked m last { w with phase := phase, cq := cq } := by
  refine stocked.queues (fun _ member => member) fun c' member => ?_
  rw [first]
  exact mem_cons_of_mem c member

/-- Work on a fork leaves the memory in order. -/
theorem session (grounded : Grounded m w) (found : w.connections.lookup k = some o) (fork : k ≠ 1)
    (obj : x.obj = o) (life : x.conn.life = (w.heap o).life)
    (supplied : Supplied ((w.heap o).regions + w.mem.pool.regions) w.mem.pool.nextAddr
      (x.conn.regions + x.mem.pool.regions) x.mem.pool.nextAddr)
    (requests : ∃ made, x.mem.requests = w.mem.requests ++ made)
    (paged : x.conn.Paged w.cfg.pageSize) (sized : (w.setSession x).Exact → x.conn.Sized)
    (queue : ∀ q ∈ (w.setSession x).underway, q ∈ w.underway ∨ q.key ≠ 1) :
    Stocked m last (w.setSession x) := by
  subst obj
  obtain ⟨made, appended⟩ := requests
  have before : (w.setSession x).Exact → w.Exact := Exact.of_append appended rfl
  have aside : m ≠ x.obj := by
    rintro rfl
    exact fork (grounded.inj found grounded.main)
  have main : (w.setSession x).heap m = w.heap m := update_of_ne aside ..
  have mine : x.conn.life < w.nextLife := by
    rw [life]
    exact (stocked.conns found).life
  refine { stocked with distinct := ?_, shelved := ?_, conns := ?_, unborn := ?_, primed := ?_,
                        arrived := ?_ }
  · exact (supplied_setSession w (grounded.bound found) supplied).distinct stocked.distinct
  · exact ⟨stocked.shelved.1, fun exact' => stocked.shelved.2 (before exact')⟩
  · intro k i found'
    by_cases same : i = x.obj
    · subst same
      rw [show (w.setSession x).heap x.obj = x.conn from update_self ..]
      exact ⟨paged, sized, mine⟩
    · rw [show (w.setSession x).heap i = w.heap i from update_of_ne same ..]
      have kept := stocked.conns found'
      exact ⟨kept.paged, fun exact' => kept.sized (before exact'), kept.life⟩
  · intro life' unborn
    have other : life' ≠ x.conn.life := (mine.trans_le unborn).ne'
    rw [show (w.setSession x).histories life' = w.histories life' from update_of_ne other ..]
    exact stocked.unborn life' unborn
  · intro exact' q member one
    rw [main]
    exact stocked.primed (before exact') q ((queue q member).resolve_right (not_not.mpr one)) one
  · rw [main]
    exact fun exact' => stocked.arrived (before exact')

/-- A fork is given up. -/
theorem release (grounded : Grounded m w) (found : w.connections.lookup k = some o) (fork : k ≠ 1)
    (done : w.release k = some w') : Stocked m last w' := by
  have bound : ∀ {i : Nat}, w.connections.lookup k = some i → i < w.nextObj := grounded.bound
  rcases release_cases done bound with ⟨absent, _⟩ | ⟨i, released⟩
  · rw [found] at absent
    cases absent
  cases found.symm.trans released.found
  have conns : ∀ {k' : Int} {i : Nat}, w'.connections.lookup k' = some i →
      Furnished w.cfg.pageSize w.Exact w.nextLife (w'.heap i) := by
    intro k' i found'
    obtain ⟨_, registered, _, same⟩ := grounded.of_released released found'
    rw [same]
    exact stocked.conns registered
  have distinct := (Supplied.of_le released.regions).distinct stocked.distinct
  have shelved := released.shelved stocked.shelved fun exact' => (stocked.conns found).sized exact'
  have main : w'.heap m = w.heap m := by
    refine released.others m ?_
    rintro rfl
    exact fork (grounded.inj found grounded.main)
  have free : ∀ rb ∈ w'.bufPool.pool.items, rb.Paged w.cfg.pageSize := by
    refine release_all stocked.free ?_ done
    intro i rb rb' found' mine cleared
    change (w.cfg.pageSize : Int) ≤ rb'.size
    rw [(zeroes_frame cleared).2]
    have paged := (stocked.conns found').paged
    exact mine.elim (paged.1 rb) (paged.2 rb)
  rw [released.frame] at distinct shelved conns ⊢
  refine { stocked with distinct := distinct, shelved := shelved, free := free, conns := conns
                        unborn := ?_, primed := ?_, arrived := ?_ }
  · intro life unborn
    have other : life ≠ (w.heap o).life := ((stocked.conns found).life.trans_le unborn).ne'
    simp only [update_of_ne other]
    exact stocked.unborn life unborn
  · simp only [main]
    exact stocked.primed
  · simp only [main]
    exact stocked.arrived

/-- A fork takes the buffers of the main connection over, which is armed with an empty one. -/
theorem parted (grounded : Grounded m w) (quiet : 1 ∉ w.outstanding.map Sqe.key)
    (parted : Parted w c m f base inbound grown outbound w') : Stocked m last w' := by
  obtain ⟨rb, rb', out, addr, present, counted, present', _, conn⟩ := parted.fork
  obtain ⟨front, mem, address, grew, main, queue⟩ := parted.main
  obtain ⟨made, appended⟩ := parted.requests
  obtain ⟨shelved, blank⟩ := parted.blank stocked.shelved
  have config : w'.cfg = w.cfg := by rw [parted.frame]
  have next : w'.nextLife = w.nextLife + 1 := by rw [parted.frame]
  have before : w'.Exact → w.Exact := Exact.of_append appended config
  have supplies : RingBuffer.Supplies w.cfg.pageSize inbound mem grown w'.mem :=
    .of_resized (growWhen_resized grew)
  have counts : RingBuffer.Supplies w.cfg.pageSize rb w'.mem rb' w'.mem :=
    .of_frame (advanceWrite_frame counted)
  obtain ⟨spare, spare', free⟩ := parted.all stocked.free (newMagicBuffer_paged stocked.shelved.1)
  -- a registered connection is the fork, the main one, or as it was
  have split : ∀ {k : Int} {i : Nat}, w'.connections.lookup k = some i →
      i = f ∨ i = m ∨ (w.connections.lookup k = some i ∧ w'.heap i = w.heap i) := by
    intro k i found
    rcases parted.lookup_cases found with ⟨_, new⟩ | ⟨_, old⟩
    · exact Or.inl new
    · have other := grounded.ne_fork parted old
      by_cases same : i = m
      · exact Or.inr (Or.inl same)
      · exact Or.inr (Or.inr ⟨old, parted.others i other same⟩)
  have quiet' : ∀ q ∈ w.outstanding, q.key ≠ 1 := by
    intro q member one
    exact quiet (one ▸ mem_map_of_mem member)
  have mine := stocked.conns grounded.main
  constructor
  case page => rw [config]; exact stocked.page
  case sync => rw [config]; exact stocked.sync
  case idle => rw [parted.frame]; exact stocked.idle
  case distinct => exact parted.supplied.distinct stocked.distinct
  case shelved => exact shelved
  case free => rw [config]; exact free
  case conns =>
    have exact_pool : w'.Exact → ∀ q ∈ w'.mem.requests, q.Exact w.cfg.pageSize := by
      rw [← config]
      exact id
    have later : ∀ {life}, life < w.nextLife → life < w'.nextLife := by
      rw [next]
      exact fun lt => lt.trans (Nat.lt_succ_self _)
    intro k i found
    rcases split found with rfl | rfl | ⟨old, same⟩
    · rw [conn]
      refine ⟨⟨fun _ here => ?_, fun _ here => ?_⟩, fun exact' => ?_, ?_⟩
      · cases here
        rw [config]
        exact counts.paged (mine.paged.1 rb present)
      · cases here
        rw [config]
        exact mine.paged.2 out present'
      · obtain ⟨⟨rb₀, here, sized⟩, out₀, here', sized'⟩ := mine.sized (before exact')
        cases present.symm.trans here
        cases present'.symm.trans here'
        exact ⟨⟨rb', rfl, counts.sized (exact_pool exact') sized⟩, out, rfl, sized'⟩
      · rw [next]
        exact Nat.lt_succ_self _
    · rw [main]
      refine ⟨⟨fun _ here => ?_, fun _ here => ?_⟩, fun exact' => ?_, later mine.life⟩
      · cases here
        rw [config]
        exact supplies.paged spare
      · cases here
        rw [config]
        exact spare'
      · exact ⟨⟨grown, rfl, supplies.sized (exact_pool exact') (blank exact').1.sized⟩, outbound,
          rfl, (blank exact').2.sized⟩
    · have kept := stocked.conns old
      rw [same]
      exact ⟨config ▸ kept.paged, fun exact' => kept.sized (before exact'), later kept.life⟩
  case unborn =>
    intro life unborn
    rw [next] at unborn
    obtain ⟨_, same⟩ := parted.histories life
    rw [same]
    exact stocked.unborn life (Nat.le_of_succ_le unborn)
  case primed =>
    intro exact' q member one
    rw [underway_of_push (by rw [parted.frame]) queue] at member
    rcases mem_append.mp member with old | new
    · exact absurd one (quiet' q (mem_append_left _ old))
    · obtain ⟨l, rfl, empty⟩ := (blank exact').1.layout
      rw [l.growIfUnsufficientFreeSpace_paged stocked.page empty spare] at grew
      rw [l.toRing_writeAddress] at address
      cases grew
      cases address
      cases mem_singleton.mp new
      rw [main]
      exact ⟨l, rfl, empty, rfl, rfl⟩
  case arrived =>
    intro _ c' member one
    rw [show w'.cq = w.cq by rw [parted.frame]] at member
    exact absurd one (quiet' c'.sqe (mem_append_right _ (mem_map_of_mem member)))

/-- Completions arrive that are no datagram. -/
theorem arrive (underway : ∀ q ∈ (inflight ++ w.sq).flatten, q ∈ w.underway) {more : List Cqe}
    (failed : ∀ c ∈ more, c.sqe.key = 1 → c.res < 0) :
    Stocked m last { w with inflight := inflight, cq := w.cq ++ more } := by
  refine { stocked with primed := ?_, arrived := ?_ }
  · exact fun exact' q member => stocked.primed exact' q (underway q member)
  · intro exact' c member one fine
    rcases mem_append.mp member with old | new
    · exact stocked.arrived exact' c old one fine
    · exact absurd (failed c new one) (not_lt.mpr fine)

/-- A datagram arrives at the front of the empty buffer. -/
theorem stored (grounded : Grounded m w) {q : Sqe}
    (member : q ∈ w.underway) (one : q.key = 1) (alone : ∀ c ∈ w.cq, c.sqe.key ≠ 1)
    (underway : ∀ q ∈ (inflight ++ w.sq).flatten, q ∈ w.underway) (count : c.res = c.data.length)
    (fits : c.res ≤ q.len) (peer : Option NetAddr) :
    Stocked m (some ⟨c.data, peer⟩)
      { (w.deposit q.addr c.data).setConn m
          { (w.deposit q.addr c.data).heap m with rawSockaddr := peer } with
        inflight := inflight, cq := w.cq ++ [c] } := by
  have heap : ∀ i, ∃ sender, ((w.deposit q.addr c.data).setConn m
      { (w.deposit q.addr c.data).heap m with rawSockaddr := peer }).heap i =
        { (w.heap i).deposit q.addr c.data with rawSockaddr := sender } :=
    setConn_sender (w.deposit q.addr c.data) m peer
  have main : ((w.deposit q.addr c.data).setConn m
      { (w.deposit q.addr c.data).heap m with rawSockaddr := peer }).heap m =
        { (w.heap m).deposit q.addr c.data with rawSockaddr := peer } := update_self ..
  have bound : m < (w.deposit q.addr c.data).nextObj := grounded.bound grounded.main
  refine { stocked with distinct := ?_, shelved := ?_, free := ?_, conns := ?_, primed := ?_,
                        arrived := ?_ }
  · have regions := regions_setConn (w.deposit q.addr c.data) bound
      (c := { (w.deposit q.addr c.data).heap m with rawSockaddr := peer }) rfl
    rw [regions_deposit] at regions
    have distinct := stocked.distinct
    rw [← regions] at distinct
    exact distinct
  · refine ⟨stocked.shelved.1, fun exact' rb inside => ?_⟩
    obtain ⟨rb₀, old, rfl⟩ := mem_map.mp inside
    have blank := stocked.shelved.2 exact' rb₀ old
    exact ⟨deposit_sized blank.sized _ _, blank.r, blank.w, blank.isEmpty⟩
  · intro rb inside
    obtain ⟨rb₀, old, rfl⟩ := mem_map.mp inside
    exact stocked.free rb₀ old
  · intro k i found
    obtain ⟨sender, conn⟩ := heap i
    have kept := stocked.conns found
    rw [show Worker.heap _ i = _ from conn]
    refine ⟨⟨fun rb here => ?_, fun rb here => ?_⟩, fun exact' => ?_, kept.life⟩
    · obtain ⟨rb₀, old, rfl⟩ := map_eq_some_iff.mp here
      exact kept.paged.1 rb₀ old
    · obtain ⟨rb₀, old, rfl⟩ := map_eq_some_iff.mp here
      exact kept.paged.2 rb₀ old
    · obtain ⟨⟨rb, present, first⟩, out, present', second⟩ := kept.sized exact'
      refine ⟨⟨rb.deposit q.addr c.data, ?_, deposit_sized first _ _⟩,
        out.deposit q.addr c.data, ?_, deposit_sized second _ _⟩
      · simp only [Connection.deposit, present, map_some]
      · simp only [Connection.deposit, present', map_some]
  · intro exact' q' member' one'
    obtain ⟨l, present, empty, address, _⟩ := stocked.primed exact' q member one
    obtain ⟨l', present', _, address', len'⟩ := stocked.primed exact' q' (underway q' member') one'
    have same : l'.toRing = l.toRing := Option.some.inj (present'.symm.trans present)
    have mem : l'.mem = l.mem := Option.some.inj (congrArg RingBuffer.vm same)
    have index : l'.w = l.w := Int.ofNat.inj (congrArg RingBuffer.w same)
    refine ⟨l.store c.data, ?_, empty, ?_, ?_⟩
    · rw [show Worker.heap _ m = _ from main, address]
      simp only [Connection.deposit, present, map_some, Layout.toRing_deposit]
    · rw [address', mem, index]
      rfl
    · rw [len', mem]
      rfl
  · intro exact' c' member' one' fine
    rcases mem_append.mp member' with old | new
    · exact absurd one' (alone c' old)
    · cases mem_singleton.mp new
      obtain ⟨l, present, empty, address, len⟩ := stocked.primed exact' q member one
      have room : l.count + c.data.length ≤ l.mem.size := by
        rw [l.count_of_isEmpty empty]
        omega
      rw [show Worker.heap _ m = _ from main]
      refine ⟨l.store c.data, ?_, empty, count, ?_, l.store_spare room, rfl⟩
      · rw [address]
        simp only [Connection.deposit, present, map_some, Layout.toRing_deposit]
      · exact (Nat.le_add_left _ _).trans room

/-- A send is noted down in the life it was made in. -/
theorem record (life : Nat) {f : History → History}
    (kept : ∀ h, (f h).word = h.word ∧ (f h).written = h.written) :
    Stocked m last (w.record life f) := by
  refine { stocked with unborn := ?_ }
  intro life' unborn
  by_cases same : life' = life
  · subst same
    change ((update w.histories life' _) life').word = [] ∧
      ((update w.histories life' _) life').written = []
    rw [update_self, (kept _).1, (kept _).2]
    exact stocked.unborn life' unborn
  · change ((update w.histories life _) life').word = [] ∧
      ((update w.histories life _) life').written = []
    rw [update_of_ne same]
    exact stocked.unborn life' unborn

theorem complete (serving : Serving m w) {chain : Nat} {res : Int}
    {nonempty : Bool} {data : List UInt8} {peer : Option NetAddr}
    (done : w.complete chain res nonempty data peer = some w') :
    Stocked m ((w.arrival (.complete chain res nonempty data peer)).or last) w' := by
  unfold Worker.complete at done
  split at done
  · rename_i q rest found
    obtain ⟨w₁, ran, done⟩ := bind_eq_some_iff.mp done
    have member := mem_underway_of_getElem? found mem_cons_self
    have shorter : ∀ {new : List Sqe}, (∀ q' ∈ new, q' ∈ q :: rest) →
        ∀ q' ∈ underway { w with inflight := w.inflight.set chain new, cq := w.cq },
          q' ∈ w.underway :=
      fun sub _ => mem_underway_of_set found sub
    have nothing : ∀ q' ∈ ([] : List Sqe), q' ∈ q :: rest := fun _ inside =>
      absurd inside not_mem_nil
    have arrival : w.arrival (.complete chain res nonempty data peer) =
        if q.flag = .read ∧ 0 ≤ res then some ⟨data, peer⟩ else none := by
      simp only [Worker.arrival, found]
    rw [arrival]
    by_cases error : res < 0
    · -- nothing has arrived, and the rest of the chain is cancelled
      rw [if_neg (fun both => absurd both.2 (not_le.mpr error)), none_or]
      rw [if_pos error] at done
      cases done
      have failed : ∀ c ∈ (⟨q, res, nonempty, data⟩ : Cqe) :: rest.map Sqe.cancelled,
          c.sqe.key = 1 → c.res < 0 := by
        intro c inside _
        rcases mem_cons.mp inside with rfl | behind
        · exact error
        · obtain ⟨q', _, rfl⟩ := mem_map.mp behind
          exact show ecanceled < 0 by decide
      unfold execute at ran
      rcases serving.requests q (mem_append_left _ member) with ⟨_, read, _⟩ | ⟨_, write, _⟩
      · simp only [read, if_pos error] at ran
        split_ifs at ran
        cases ran
        exact stocked.arrive (shorter nothing) failed
      · simp only [write, if_pos error] at ran
        split_ifs at ran
        cases ran
        have failing := stocked.record q.life
          (f := fun h => { h with sendFailed := true }) fun _ => ⟨rfl, rfl⟩
        exact failing.arrive (shorter nothing) failed
    · rw [if_neg error] at done
      cases done
      have sub : ∀ q' ∈ rest, q' ∈ q :: rest := fun q' => mem_cons_of_mem q
      unfold execute at ran
      rcases serving.requests q (mem_append_left _ member) with
        ⟨one, read, _, obj⟩ | ⟨fork, write, _⟩
      · rw [if_pos ⟨read, not_lt.mp error⟩, some_or]
        simp only [read, if_neg error] at ran
        have udp : (w.deposit q.addr data).cfg.sendRecvMsg = true := serving.udp
        split_ifs at ran with fits
        cases ran
        have alone : ∀ c ∈ w.cq, c.sqe.key ≠ 1 := by
          intro c inside same
          have nodup := serving.nodup
          rw [outstanding, map_append] at nodup
          refine disjoint_of_nodup_append nodup (mem_map_of_mem member) ?_
          rw [one, ← same]
          exact mem_map_of_mem (mem_map_of_mem inside)
        subst obj
        exact stocked.stored serving.toGrounded member one alone (shorter sub)
          (c := ⟨q, res, nonempty, data⟩) fits.2 fits.1 peer
      · have other : ¬ (q.flag = .read ∧ 0 ≤ res) := by
          rintro ⟨read, _⟩
          cases write.symm.trans read
        rw [if_neg other, none_or]
        simp only [write, if_neg error] at ran
        split_ifs at ran
        cases ran
        have taking := stocked.record q.life
          (f := fun h => { h with taken := h.taken ++ data }) fun _ => ⟨rfl, rfl⟩
        refine taking.arrive (shorter sub) ?_
        intro c inside one
        cases mem_singleton.mp inside
        exact absurd one fork
  · cases done

end Stocked

/-- A datagram server starts with an empty buffer armed. -/
theorem start_stocked {cfg : Config} {streams : Streams} (shard : cfg.kind = .shard)
    (udp : cfg.sendRecvMsg = true) (sync : cfg.asyncHandler = false) (page : minRead ≤ cfg.pageSize)
    (started : start cfg streams = some w) : ∃ m, Serving m w ∧ Stocked m none w := by
  obtain ⟨m, serving⟩ := start_serving shard udp started
  obtain ⟨o, base, inbound, grown, outbound, addr, w₁, mem, entered, present, present', all,
    address, grew, rfl⟩ := start_entered shard udp started
  obtain rfl : m = o := Option.some.inj (serving.main.symm.trans entered.lookup_self)
  have positive : 0 < (cfg.pageSize : Int) := Int.natCast_pos.mpr cfg.pageSize_pos
  obtain ⟨spare, spare', free⟩ := all (newMagicBuffer_paged positive)
  obtain ⟨shelved, blank⟩ := entered.blank (init_shelved cfg streams)
  obtain ⟨_, _, conn⟩ := entered.conn
  have config : w₁.cfg = cfg := by rw [entered.frame]; rfl
  have nothing : w₁.cq = [] ∧ w₁.inflight = [] ∧ w₁.tasks = [] ∧ w₁.asyncOpQueue = [] := by
    rw [entered.frame]
    exact ⟨rfl, rfl, rfl, rfl⟩
  obtain ⟨lt, _⟩ := entered.lt (forall_mem_nil _)
  have supplies : RingBuffer.Supplies cfg.pageSize inbound w₁.mem grown mem :=
    .of_resized (growWhen_resized grew)
  have before : (∀ q ∈ mem.requests, q.Exact w₁.cfg.pageSize) → w₁.Exact := by
    intro exact' q member
    obtain ⟨made, appended⟩ := supplies.requests
    refine exact' q ?_
    rw [appended]
    exact mem_append_left _ member
  have only : ∀ {k : Int} {i : Nat}, w₁.connections.lookup k = some i → i = m := by
    intro k i found
    by_cases same : k = 1
    · subst same
      exact Option.some.inj (found.symm.trans entered.lookup_self)
    · rw [entered.lookup_ne same] at found
      cases found
  refine ⟨m, serving, ?_⟩
  constructor
  case page => rw [config]; exact page
  case sync => rw [config]; exact sync
  case idle => simp only [holders, nothing, map_nil, append_nil]
  case distinct =>
    have armed := supplied_setSession (x := ⟨m, { w₁.heap m with
      inboundBuffer := some grown, msgHdr := some ⟨addr, inbound.cap⟩, rawSockaddr := none
      state := .read, mode := .kernelSpace }, w₁.histories (w₁.heap m).life, mem, w₁.sq,
      w₁.shut⟩) w₁ lt (by
        change Supplied ((w₁.heap m).inboundBuffer.elim 0 RingBuffer.regions + _ + _) _
          (grown.regions + _ + _) _
        rw [present, elim_some, add_right_comm, add_right_comm grown.regions]
        exact supplies.regions.add _)
    exact (entered.supplied.trans armed).distinct (init_distinct cfg streams)
  case shelved => exact ⟨shelved.1, fun exact' => shelved.2 (before exact')⟩
  case free => rw [config]; exact free
  case conns =>
    intro k i found
    rw [only found]
    simp only [update_self]
    refine ⟨⟨fun rb here => ?_, fun rb here => ?_⟩, fun exact' => ?_, ?_⟩
    · cases here
      rw [config]
      exact supplies.paged spare
    · cases present'.symm.trans here
      rw [config]
      exact spare'
    · obtain ⟨⟨rb, here, empty⟩, out, here', empty'⟩ := blank (before exact')
      cases present.symm.trans here
      refine ⟨⟨grown, rfl, supplies.sized ?_ empty.sized⟩, out, here', empty'.sized⟩
      rw [← config]
      exact exact'
    · dsimp only
      rw [entered.life, entered.frame]
      exact Nat.lt_succ_self _
  case unborn =>
    intro life _
    rw [entered.frame]
    exact ⟨rfl, rfl⟩
  case primed =>
    intro exact' q member one
    obtain ⟨⟨rb, here, clear⟩, _⟩ := blank (before exact')
    cases present.symm.trans here
    obtain ⟨l, rfl, empty⟩ := clear.layout
    rw [l.growIfUnsufficientFreeSpace_paged page empty spare] at grew
    rw [l.toRing_writeAddress] at address
    cases grew
    cases address
    simp only [underway, nothing, nil_append] at member
    cases mem_singleton.mp member
    simp only [update_self]
    exact ⟨l, rfl, empty, rfl, rfl⟩
  case arrived =>
    intro _ c member
    rw [show w₁.cq = [] from nothing.1] at member
    cases member

end Worker

end Gain
