import Gain.Worker.Admission

/-! # Completions

The kernel executes the requests of a chain in order. What it stores for one
connection lies in no buffer of another, and what it takes for a connection is
the content of that connection's buffer.
-/

namespace Gain

open Function List Option

/-! ## Memory -/

theorem coe_flatMap_range {α : Type} (f : Nat → List α) (g : α → Nat) (n : Nat) :
    (((List.range n).flatMap f).map g : Multiset Nat) =
      ∑ i ∈ Finset.range n, ((f i).map g : Multiset Nat) := by
  induction n with
  | zero => rfl
  | succ n ih =>
    rw [range_succ, flatMap_append, map_append, ← Multiset.coe_add, ih,
      Finset.sum_range_succ, flatMap_singleton]

namespace Connection

variable {c : Connection} {a : Address}

theorem memories_addr (c : Connection) : (c.memories.map VirtualMem.addr : Multiset Nat) =
    c.regions := by
  have one : ∀ ptr : Option RingBuffer, (((ptr.bind RingBuffer.vm).toList.map VirtualMem.addr :
      List Nat) : Multiset Nat) = ptr.elim 0 RingBuffer.regions := by
    intro ptr
    cases ptr with
    | none => rfl
    | some rb => rfl
  rw [memories, map_append, ← Multiset.coe_add, one, one]
  rfl

/-- Bytes stored elsewhere leave the connection as it is. -/
theorem deposit_eq (apart : a.region ∉ c.regions) (data : List UInt8) : c.deposit a data = c := by
  have buffer : ∀ ptr : Option RingBuffer, a.region ∉ ptr.elim 0 RingBuffer.regions →
      (ptr.map fun rb => rb.deposit a data) = ptr := by
    intro ptr apart
    cases ptr with
    | none => rfl
    | some rb =>
      have same : (rb.vm.map fun m => m.deposit a data) = rb.vm := by
        cases memory : rb.vm with
        | none => rfl
        | some m =>
          have other : ¬ m.addr = a.region := by
            intro same
            refine apart ?_
            change a.region ∈ (rb.vm.toList.map VirtualMem.addr : List Nat)
            rw [memory, ← same]
            exact mem_singleton_self _
          have kept : m.deposit a data = m := by
            unfold VirtualMem.deposit
            exact if_neg other
          rw [map_some, kept]
      rw [map_some, RingBuffer.deposit, same]
  obtain ⟨inbound, outbound⟩ := not_or.mp (mt Multiset.mem_add.mpr apart)
  rw [deposit, buffer _ inbound, buffer _ outbound]

end Connection

/-! ## Chains -/

variable {q : Sqe} {new : List Sqe}

namespace Chains

variable {listener k : Int} {inflight sq : Chains} {chain : Nat} {old : List Sqe}

variable (solo : Solo listener (inflight ++ sq))
include solo

/-- The requests before, in and behind a submitted chain. -/
theorem Solo.split (found : inflight[chain]? = some old) : ∃ before behind,
      (inflight ++ sq).flatten = before ++ old ++ behind ∧
      (∀ new, (inflight.set chain new ++ sq).flatten = before ++ new ++ behind) ∧
      ∀ p, p ∈ before ∨ p ∈ behind → ∀ q ∈ old, p.key = q.key → q.key = listener := by
  obtain ⟨lt, rfl⟩ := List.getElem?_eq_some_iff.mp found
  have split : inflight = inflight.take chain ++ inflight[chain] :: inflight.drop (chain + 1) := by
    rw [List.getElem_cons_drop, take_append_drop]
  refine ⟨(inflight.take chain).flatten, (inflight.drop (chain + 1) ++ sq).flatten, ?_, ?_, ?_⟩
  · nth_rewrite 1 [split]
    simp only [flatten_append, flatten_cons, append_assoc]
  · intro new
    rw [set_eq_take_append_cons_drop.trans (if_pos lt)]
    simp only [flatten_append, flatten_cons, append_assoc]
  · unfold Solo at solo
    rw [split, append_assoc, cons_append, pairwise_append, pairwise_cons]
      at solo
    obtain ⟨_, ⟨first, _⟩, across⟩ := solo
    intro p place q member same
    rcases place with before | behind
    · obtain ⟨c, place, inside⟩ := mem_flatten.mp before
      rw [← same]
      exact across c place _ mem_cons_self p inside q member same
    · obtain ⟨c, place, inside⟩ := mem_flatten.mp behind
      exact first c place q member p inside same.symm

/-- All requests of a connection are in its chain. -/
theorem Solo.filter (found : inflight[chain]? = some old)
    (other : k ≠ listener) (member : q ∈ old) (key : q.key = k) :
    ((inflight ++ sq).flatten.filter fun q => q.key = k) = (old.filter fun q => q.key = k) ∧
      ∀ new, ((inflight.set chain new ++ sq).flatten.filter fun q => q.key = k) =
        new.filter fun q => q.key = k := by
  obtain ⟨before, behind, all, set, apart⟩ := solo.split found
  have none' : ∀ l : List Sqe, (∀ p ∈ l, p ∈ before ∨ p ∈ behind) →
      (l.filter fun q => q.key = k) = [] := by
    intro l place
    rw [filter_eq_nil_iff]
    intro p inside
    simp only [decide_eq_true_eq]
    intro same
    refine other ?_
    rw [← key]
    exact apart p (place p inside) q member (same.trans key.symm)
  have first := none' before fun _ => Or.inl
  have last := none' behind fun _ => Or.inr
  refine ⟨?_, fun new => ?_⟩
  · rw [all, filter_append, filter_append, first, last, nil_append, append_nil]
  · rw [set, filter_append, filter_append, first, last, nil_append, append_nil]

/-- What is not taken out of the chain is where it was. -/
theorem Solo.filter_set (found : inflight[chain]? = some old)
    (kept : (new.filter fun q => q.key = k) = old.filter fun q => q.key = k) :
    ((inflight.set chain new ++ sq).flatten.filter fun q => q.key = k) =
      (inflight ++ sq).flatten.filter fun q => q.key = k := by
  obtain ⟨before, behind, all, set, _⟩ := solo.split found
  rw [all, set, filter_append, filter_append, filter_append, filter_append, kept]

end Chains

namespace Worker

variable {w w₁ w' : Worker} {k : Int} {o : Nat} {rules : Rules} {exact' : Prop} {m : VirtualMem}
  {a : Address} {chain : Nat} {old : List Sqe} {more : List Cqe}

theorem memories_addr (w : Worker) : (w.memories.map VirtualMem.addr : Multiset Nat) =
    w.regions := by
  have free : ∀ items : List RingBuffer,
      ((items.flatMap fun rb => rb.vm.toList).map VirtualMem.addr : Multiset Nat) =
        (items.map RingBuffer.regions).sum := by
    intro items
    induction items with
    | nil => rfl
    | cons rb items ih =>
      rw [flatMap_cons, map_append, ← Multiset.coe_add, ih, map_cons, sum_cons]
      rfl
  rw [memories, map_append, map_append, ← Multiset.coe_add, ← Multiset.coe_add,
    coe_flatMap_range, coe_flatMap_range, free]
  simp only [Connection.memories_addr]
  rfl

/-- The bytes at an address are those of the only memory there. -/
theorem fetch_eq (distinct : Supplied.Distinct w.regions w.mem.pool.nextAddr)
    (member : m ∈ w.memories) (region : m.addr = a.region) (n : Int) :
    w.fetch a n = m.slice? a.offset (a.offset + n) := by
  have nodup : (w.memories.map VirtualMem.addr).Nodup := by
    rw [← Multiset.coe_nodup, memories_addr]
    exact distinct.1
  have found : w.memories.find? (fun m => m.addr = a.region) = some m := by
    cases answer : w.memories.find? (fun m => m.addr = a.region) with
    | none =>
      have none' := find?_eq_none.mp answer m member
      simp [region] at none'
    | some m' =>
      have same : m'.addr = m.addr := by
        rw [region]
        simpa using find?_some answer
      rw [inj_on_of_nodup_map nodup (mem_of_find?_eq_some answer) member same]
  rw [fetch, found]
  rfl

theorem mem_memories_of_outbound (lt : o < w.nextObj) {rb : RingBuffer}
    (present : (w.heap o).outboundBuffer = some rb) (memory : rb.vm = some m) : m ∈ w.memories := by
  refine mem_append_left _ (mem_append_left _ (mem_flatMap.mpr
    ⟨o, mem_range.mpr lt, mem_append_right _ ?_⟩))
  rw [present, bind_some, memory]
  exact mem_singleton_self _

/-- What is stored in a buffer of one connection is in no buffer of another. -/
theorem Sane.deposit_eq (sane : w.Sane) (lt : o < w.nextObj)
    (region : a.region ∈ (w.heap o).regions) {i : Nat} (ne : i ≠ o) (lt' : i < w.nextObj)
    (data : List UInt8) : (w.heap i).deposit a data = w.heap i := by
  refine Connection.deposit_eq (fun mine => ?_) data
  have nodup := sane.distinct.1
  rw [regions_eq w lt, Multiset.nodup_add] at nodup
  refine (Multiset.disjoint_left.mp nodup.2.2) (Multiset.mem_add.mpr (Or.inl region)) ?_
  refine Multiset.mem_add.mpr (Or.inl (Multiset.mem_sum.mpr ⟨i, ?_, mine⟩))
  exact Finset.mem_sdiff.mpr ⟨Finset.mem_range.mpr lt', by simpa using ne⟩

/-! ## One completion -/

/-- Completions arrive for entries of a chain. -/
def arrive (w : Worker) (chain : Nat) (new : List Sqe) (more : List Cqe) : Worker :=
  { w with inflight := w.inflight.set chain new, cq := w.cq ++ more }

theorem completed_arrive (w : Worker) (chain : Nat) (new : List Sqe) (more : List Cqe) (k : Int) :
    (w.arrive chain new more).completed k =
      w.completed k ++ more.filter fun c => c.sqe.key = k ∧ c.sqe.flag ≠ .addConn :=
  filter_append ..

theorem mem_todo_arrive (inside : q ∈ (w.arrive chain new more).todo k)
    (found : w.inflight[chain]? = some old) (sub : ∀ q ∈ new, q ∈ old) : q ∈ w.todo k := by
  obtain ⟨place, mine⟩ := mem_filter.mp inside
  have before : q ∈ w.underway := mem_underway_of_set found sub place
  exact mem_filter.mpr ⟨before, mine⟩

theorem Ground.arrive (ground : w.Ground) (found : w.inflight[chain]? = some old)
    (sub : ∀ q ∈ new, q ∈ old)
    (news : ∀ c ∈ more, c.sqe.flag ≠ .addConn ∧
      (c.sqe.flag = .accept → 0 ≤ c.res → w.cfg.Fresh c.res)) :
    (w.arrive chain new more).Ground := by
  refine ⟨ground.sane.complete found sub, ground.std, ground.queue, ?_, ground.solo.set found sub,
    ground.pool⟩
  intro c member
  rcases mem_append.mp member with old | added
  · exact ground.news c old
  · exact ⟨fun flag => absurd flag (news c added).1, (news c added).2⟩

variable {q : Sqe} {res : Int} {data : List UInt8} {rest : List Sqe} {nonempty : Bool} {life : Nat}

/-- The kernel executes a request. -/
theorem Ground.executed (ground : w.Ground) (member : q ∈ w.underway)
    (fresh : q.flag = .close → w.cfg.Fresh q.fd) (executed : Executed w q res data w') :
    w'.Ground := by
  have sane := ground.sane.executed member executed
  cases executed with
  | error error flag => exact ground
  | accepted fine flag closed small =>
    refine { ground with sane := sane, std := ?_ }
    exact fun fd standard => mem_cons_of_mem _ (ground.std fd standard)
  | sendError _ _ _ | received _ _ _ _ | sent _ _ _ _ => exact { ground with sane := sane }
  | closed fine flag =>
    refine { ground with sane := sane, std := fun fd standard => ?_ }
    refine mem_filter.mpr ⟨ground.std fd standard, ?_⟩
    obtain ⟨low, _, other⟩ := fresh flag
    simp only [mem_cons, not_mem_nil, or_false] at standard
    simp only [ne_eq, decide_eq_true_eq]
    rintro rfl
    rcases standard with same | same | same | same
    · omega
    · omega
    · omega
    · exact other same

/-- A request underway is one of a registered connection, or an accept of the listener. -/
theorem Regular.request_cases (regular : w.Regular rules) (member : q ∈ w.underway) :
    (w.cfg.kind = .shard ∧ q.key = w.cfg.listener ∧ q.flag = .accept) ∨
      (q.key ≠ w.cfg.listener ∧ ∃ o, w.connections.lookup q.key = some o ∧
        q ∈ (w.view q.key o).requests) := by
  have mine : q ∈ w.todo q.key := mem_filter.mpr ⟨member, by simp⟩
  by_cases key : q.key = w.cfg.listener
  · refine Or.inl ⟨?_, key, ?_⟩
    · cases kind : w.cfg.kind with
      | shard => rfl
      | consumer =>
        rw [key, (regular.consumer kind).2.1] at mine
        cases mine
    · rw [key] at mine
      exact regular.accepts.1 q mine
  · refine Or.inr ⟨key, ?_⟩
    cases found : w.connections.lookup q.key with
    | some o => exact ⟨o, rfl, mem_append_right _ mine⟩
    | none =>
      rw [(regular.quiet found key).1] at mine
      cases mine

/-- The kernel has accepted a connection. -/
theorem Regular.acceptCompleted (regular : w.Regular rules) (shard : w.cfg.kind = .shard)
    {peer : Option NetAddr} (found : w.inflight[chain]? = some (q :: rest))
    (key : q.key = w.cfg.listener) (flag : q.flag = .accept) (fine : 0 ≤ res)
    (closed : res ∉ w.openFds) (small : res < 2 ^ 31) :
    Leads rules exact' w ({ w with openFds := res :: w.openFds, clientAddr := peer }.arrive chain
      rest [{ sqe := q, res := res, nonempty := nonempty, data := data }]) := by
  have member := mem_underway_of_getElem? found mem_cons_self
  have executed : Executed w q res data
      { w with openFds := res :: w.openFds, clientAddr := peer } :=
    .accepted fine flag closed small
  have fresh := regular.toGround.fresh fine small closed
  have news : ∀ c ∈ [({ sqe := q, res := res, nonempty := nonempty, data := data } : Cqe)],
      c.sqe.flag ≠ .addConn ∧ (c.sqe.flag = .accept → 0 ≤ c.res → w.cfg.Fresh c.res) := by
    simp [flag, fresh]
  have ground := regular.toGround.executed member (fun close => by simp [flag] at close) executed
  refine .carried regular (ground.arrive found (fun _ => mem_cons_of_mem _) news)
    (.of_same rfl rfl rfl rfl rfl rfl rfl ?_ ?_ (Or.inr ⟨shard, ?_, ?_⟩))
  · intro k ne
    refine regular.solo.filter_set found ?_
    rw [filter_cons_of_neg]
    simpa [key] using ne.symm
  · intro k ne
    rw [completed_arrive]
    simp [key, ne.symm]
    rfl
  · intro p inside
    have before := mem_todo_arrive inside found fun _ => mem_cons_of_mem _
    exact regular.accepts.1 p before
  · intro c inside
    rw [completed_arrive] at inside
    rcases mem_append.mp inside with old | added
    · exact regular.accepts.2 c old
    · rw [mem_singleton.mp (mem_filter.mp added).1]
      exact flag

theorem touched_arrive (solo : Chains.Solo w.cfg.listener (w.inflight ++ w.sq))
    (found : w.inflight[chain]? = some (q :: rest)) (own : ∀ c ∈ more, c.sqe.key = q.key) :
    Touched q.key o life w (w.arrive chain rest more) where
  __ := Touched.refl
  todo ne := by
    refine solo.filter_set found ?_
    rw [filter_cons_of_neg]
    simpa using ne.symm
  completed ne := by
    rw [completed_arrive, filter_eq_nil_iff.mpr, append_nil]
    intro c member
    simp [own c member, ne.symm]

theorem touched_record (fds : List Int) (life : Nat) (f : History → History) :
    Touched k o life w ({ w with openFds := fds }.record life f) where
  __ := (Touched.refl : Touched k o life w w)
  histories ne := update_of_ne ne ..

theorem view_record (fds : List Int) (same : life = (w.heap o).life) (f : History → History) :
    ({ w with openFds := fds }.record life f).view k o =
      { w.view k o with history := f (w.view k o).history } := by
  subst same
  have history : (w.record (w.heap o).life f).histories (w.heap o).life =
      f (w.histories (w.heap o).life) := update_self ..
  simp only [view, ← history]
  rfl

/-- Bytes are stored in the inbound buffer of a connection. -/
theorem touched_deposit (sane : w.Sane) (lt : o < w.nextObj)
    (region : (w.heap o).inboundRegion = some a.region) :
    Touched k o life w (w.deposit a data) where
  __ := Touched.refl
  heap ne lt' := sane.deposit_eq lt
    (Multiset.mem_add.mpr (Or.inl (Connection.mem_regions_of_inbound region))) ne lt' data

/-- The two buffers of an object do not share their memory. -/
theorem Sane.buffers_apart (sane : w.Sane) (lt : o < w.nextObj) {r : Nat}
    (region : (w.heap o).inboundRegion = some r) : (w.heap o).outboundRegion ≠ some r := by
  intro other
  have nodup := sane.distinct.1
  rw [regions_eq w lt, add_assoc, Multiset.nodup_add] at nodup
  have across := (Multiset.nodup_add.mp nodup.1).2.2
  exact Multiset.disjoint_left.mp across (Connection.mem_regions_of_inbound region)
    (Connection.mem_regions_of_outbound other)

/-- The outbound buffer a send takes its bytes from. -/
theorem Sane.sent_bytes (sane : w.Sane) (lt : o < w.nextObj)
    (region : (w.heap o).outboundRegion = some a.region) (bytes : w.fetch a res = some data) :
    ∃ rb m, (w.heap o).outboundBuffer = some rb ∧ rb.vm = some m ∧
      m.slice? a.offset (a.offset + res) = some data := by
  obtain ⟨rb, present, region⟩ := bind_eq_some_iff.mp region
  obtain ⟨m, memory, same⟩ := map_eq_some_iff.mp region
  refine ⟨rb, m, present, memory, ?_⟩
  rw [← fetch_eq sane.distinct (mem_memories_of_outbound lt present memory) same]
  exact bytes

/-- The kernel has executed a request of a connection. -/
theorem Regular.completed (regular : w.Regular rules)
    (found : w.inflight[chain]? = some (q :: rest)) (fine : 0 ≤ res)
    (send : q.flag = .write → rules.send q res) (executed : Executed w q res data w₁) :
    Leads rules exact' w
      (w₁.arrive chain rest [{ sqe := q, res := res, nonempty := nonempty, data := data }]) := by
  have member := mem_underway_of_getElem? found mem_cons_self
  rcases regular.request_cases member with ⟨shard, key, flag⟩ | ⟨other, o, registered, mine⟩
  · cases executed with
    | accepted fine flag closed small =>
      exact regular.acceptCompleted shard found key flag fine closed small
    | error error _ => omega
    | sendError _ flag' _ | received _ flag' _ _ | sent _ flag' _ _ | closed _ flag' =>
      cases flag.symm.trans flag'
  · have tidy := regular.tidy registered other
    obtain ⟨_, fd, _, same⟩ := tidy.own q mine
    have life : q.life = (w.heap o).life := same
    have lt := regular.sane.bound registered
    have flags := tidy.flags q mine
    have fresh := regular.fresh registered other
    obtain ⟨all, set⟩ := regular.solo.filter found other mem_cons_self rfl
    rw [filter_cons_of_pos (by simp)] at all
    have first : (w.view q.key o).todo = q :: rest.filter fun p => p.key = q.key := all
    obtain ⟨inflight, sq, cq, connections, tasks, queue, cfg⟩ := executed.queues
    have ground := regular.toGround.executed member (fun _ => by rw [fd]; exact fresh) executed
    have found₁ : w₁.inflight[chain]? = some (q :: rest) := by
      rw [inflight]
      exact found
    have news : ∀ c ∈ [({ sqe := q, res := res, nonempty := nonempty, data := data } : Cqe)],
        c.sqe.flag ≠ .addConn ∧ (c.sqe.flag = .accept → 0 ≤ c.res → w₁.cfg.Fresh c.res) := by
      intro c inside
      rw [mem_singleton.mp inside]
      rcases flags with flag | flag | flag <;> simp [flag]
    have ground' := ground.arrive found₁ (fun _ => mem_cons_of_mem _) news
    have touched : Touched q.key o (w.heap o).life w w₁ := by
      cases executed with
      | error _ _ | sendError _ _ _ => omega
      | accepted _ flag _ _ => rcases flags with same | same | same <;> cases flag.symm.trans same
      | received _ flag _ _ => exact touched_deposit regular.sane lt (tidy.recv q mine flag)
      | sent _ _ _ _ =>
        rw [life]
        exact touched_record w.openFds _ _
      | closed _ _ =>
        rw [life]
        exact touched_record _ _ _
    have arrived : Touched q.key o (w.heap o).life w₁
        (w₁.arrive chain rest [⟨q, res, nonempty, data⟩]) :=
      touched_arrive ground.solo found₁ (by simp)
    have view : (w₁.arrive chain rest [⟨q, res, nonempty, data⟩]).view q.key o =
        { w₁.view q.key o with
          todo := rest.filter fun p => p.key = q.key
          done := (w.view q.key o).done ++ [⟨q, res, nonempty, data⟩] } := by
      have todo : (w₁.arrive chain rest [⟨q, res, nonempty, data⟩]).todo q.key =
          rest.filter fun p => p.key = q.key := by
        rw [← set rest, ← inflight, ← sq]
        rfl
      have done : (w₁.arrive chain rest [⟨q, res, nonempty, data⟩]).completed q.key =
          w.completed q.key ++ [⟨q, res, nonempty, data⟩] := by
        rw [completed_arrive, filter_cons_of_pos, Worker.completed, cq]
        · rfl
        · simpa using (news _ (mem_singleton_self _)).1
      rw [Worker.view, todo, done]
      rfl
    refine .one (regular.moved ground' other (touched.trans arrived) registered ?_ ?_ ?_)
    · change w₁.connections.lookup q.key = some o
      rw [connections]
      exact registered
    · rw [view]
      cases executed with
      | error _ _ | sendError _ _ _ => omega
      | accepted _ flag _ _ => rcases flags with same | same | same <;> cases flag.symm.trans same
      | received _ flag fits size =>
        subst size
        exact .received first flag fits (regular.sane.buffers_apart lt (tidy.recv q mine flag))
      | sent _ flag fits bytes =>
        obtain ⟨rb, m, present, memory, bytes⟩ :=
          regular.sane.sent_bytes lt (tidy.send q mine flag) bytes
        have recorded := view_record (k := q.key) w.openFds life fun h =>
          { h with taken := h.taken ++ data }
        rw [recorded]
        exact .sent first flag fine fits (send flag) present memory bytes
      | closed _ flag =>
        rw [view_record _ life]
        exact .closed first flag fine
    · cases executed <;> rfl

/-! ## A chain that fails -/

/-- What a failed request does besides completing. -/
theorem Executed.of_error (executed : Executed w q res data w') (error : res < 0) :
    (w' = w ∧ q.flag ≠ .write ∧ q.flag ≠ .addConn) ∨
      (q.flag = .write ∧ w' = w.record q.life fun h => { h with sendFailed := true }) := by
  cases executed with
  | error _ flag =>
    refine Or.inl ⟨rfl, ?_, ?_⟩ <;> rcases flag with same | same | same <;> rw [same] <;> decide
  | sendError _ flag _ => exact Or.inr ⟨flag, rfl⟩
  | accepted _ _ _ _ | received _ _ _ _ | sent _ _ _ _ | closed _ _ => omega

theorem filter_cancelled (rest : List Sqe) (k : Int)
    (flags : ∀ p ∈ rest, p.key = k → p.flag ≠ .addConn) :
    ((rest.map Sqe.cancelled).filter fun c => c.sqe.key = k ∧ c.sqe.flag ≠ .addConn) =
      (rest.filter fun p => p.key = k).map Sqe.cancelled := by
  rw [List.filter_map]
  congr 1
  refine filter_congr fun p member => ?_
  change decide (p.key = k ∧ p.flag ≠ .addConn) = decide (p.key = k)
  rw [decide_eq_decide]
  exact ⟨And.left, fun same => ⟨same, flags p member same⟩⟩

/-- Only the history of the connection whose send failed changes. -/
theorem Regular.failed_histories (regular : w.Regular rules) (member : q ∈ w.underway)
    (executed : Executed w q res data w') (error : res < 0)
    (ne : ∀ o, w.connections.lookup q.key = some o → q.key ≠ w.cfg.listener →
      (w.heap o).life ≠ life) : w'.histories life = w.histories life := by
  rcases executed.of_error error with ⟨rfl, _⟩ | ⟨flag, rfl⟩
  · rfl
  · rcases regular.request_cases member with ⟨_, _, flag'⟩ | ⟨other, o, registered, mine⟩
    · cases flag.symm.trans flag'
    · have same : q.life = (w.heap o).life := ((regular.tidy registered other).own q mine).2.2.2
      refine update_of_ne ?_ ..
      rw [same]
      exact (ne o registered other).symm

theorem todo_arrive_in (solo : Chains.Solo w.cfg.listener (w.inflight ++ w.sq))
    (found : w.inflight[chain]? = some old) (other : k ≠ w.cfg.listener) (inside : q ∈ old)
    (key : q.key = k) (more : List Cqe) :
    w.todo k = (old.filter fun p => p.key = k) ∧ (w.arrive chain [] more).todo k = [] := by
  obtain ⟨all, set⟩ := solo.filter found other inside key
  exact ⟨all, set []⟩

theorem todo_arrive_out (solo : Chains.Solo w.cfg.listener (w.inflight ++ w.sq))
    (found : w.inflight[chain]? = some old) (none' : ∀ p ∈ old, p.key ≠ k) (more : List Cqe) :
    (w.arrive chain [] more).todo k = w.todo k := by
  refine solo.filter_set found ?_
  rw [filter_nil, eq_comm, filter_eq_nil_iff]
  simpa using none'

/-- The completions of a chain that fails, one key at a time. -/
theorem completed_cancelled {c : Cqe} (sqe : c.sqe = q) (flags : ∀ p ∈ q :: rest, p.flag ≠ .addConn)
    (chain : Nat) (k : Int) :
    (w.arrive chain [] (c :: rest.map Sqe.cancelled)).completed k = w.completed k ++
      ((if q.key = k then [c] else []) ++ (rest.filter fun p => p.key = k).map Sqe.cancelled) := by
  rw [completed_arrive, filter_cons, filter_cancelled rest k
    fun p member _ => flags p (mem_cons_of_mem _ member)]
  by_cases key : q.key = k
  · simp [key, sqe, flags q mem_cons_self]
  · simp [key, sqe]

/-- A chain breaks at its first entry. Nothing that concerns another key has changed, and the
connection of the first entry remembers a failed send. -/
structure Broken (w w₁ : Worker) (chain : Nat) (q : Sqe) (rest : List Sqe) : Prop where
  found : w₁.inflight[chain]? = some (q :: rest)
  members : ∀ p ∈ q :: rest, p ∈ w.underway
  flags : ∀ p ∈ q :: rest, p.flag ≠ .addConn
  ground : w₁.Ground
  todo : ∀ k, w₁.todo k = w.todo k
  completed : ∀ k, w₁.completed k = w.completed k
  cfg : w₁.cfg = w.cfg
  connections : w₁.connections = w.connections
  heap : w₁.heap = w.heap
  tasks : w₁.tasks = w.tasks
  queue : w₁.asyncOpQueue = w.asyncOpQueue
  nextLife : w₁.nextLife = w.nextLife

/-- A failed request breaks its chain. -/
theorem Regular.broken (regular : w.Regular rules) (found : w.inflight[chain]? = some (q :: rest))
    (error : res < 0) (executed : Executed w q res data w₁) : Broken w w₁ chain q rest := by
  have members : ∀ p ∈ q :: rest, p ∈ w.underway :=
    fun p inside => mem_underway_of_getElem? found inside
  obtain ⟨inflight, sq, cq, connections, tasks, queue, cfg⟩ := executed.queues
  have kept : w₁.heap = w.heap ∧ w₁.nextLife = w.nextLife := by
    rcases executed.of_error error with ⟨rfl, _⟩ | ⟨_, rfl⟩ <;> exact ⟨rfl, rfl⟩
  refine ⟨?_, members, ?_, ?_, ?_, ?_, cfg, connections, kept.1, tasks, queue, kept.2⟩
  · rw [inflight]
    exact found
  · intro p inside
    rcases regular.request_cases (members p inside) with ⟨_, _, flag⟩ | ⟨other, o, registered, mine⟩
    · rw [flag]
      decide
    · rcases (regular.tidy registered other).flags p mine with flag | flag | flag <;>
        rw [flag] <;> decide
  · refine regular.toGround.executed (members q mem_cons_self) (fun flag => ?_) executed
    rcases regular.request_cases (members q mem_cons_self) with
      ⟨_, _, flag'⟩ | ⟨other, o, registered, mine⟩
    · cases flag.symm.trans flag'
    · rw [((regular.tidy registered other).own q mine).2.1]
      exact regular.fresh registered other
  · intro k
    rw [todo, underway, inflight, sq]
    rfl
  · intro k
    rw [Worker.completed, cq]
    rfl

section Broken

variable {chain : Nat} {rest : List Sqe} {c : Cqe}

variable (broken : Broken w w₁ chain q rest)
include broken

theorem Broken.view (more : List Cqe) (k : Int) (o : Nat) :
    (w₁.arrive chain [] more).view k o = { w.view k o with
      history := w₁.histories (w.heap o).life
      todo := (w₁.arrive chain [] more).todo k
      done := (w₁.arrive chain [] more).completed k } := by
  simp only [Worker.view, tasksOf, ← broken.heap, ← broken.tasks, ← broken.queue]
  rfl

/-- The chain has no entry of the key. -/
theorem Broken.outside (sqe : c.sqe = q) (none' : ∀ p ∈ q :: rest, p.key ≠ k) :
    (w₁.arrive chain [] (c :: rest.map Sqe.cancelled)).todo k = w.todo k ∧
      (w₁.arrive chain [] (c :: rest.map Sqe.cancelled)).completed k = w.completed k := by
  refine ⟨?_, ?_⟩
  · rw [todo_arrive_out broken.ground.solo broken.found none', broken.todo]
  · rw [completed_cancelled sqe broken.flags, broken.completed,
      if_neg (none' q mem_cons_self), filter_eq_nil_iff.mpr]
    · simp
    · simpa using fun p member => none' p (mem_cons_of_mem _ member)

/-- What a connection sees of the chain: its first entry fails, or is cancelled, and the others
are cancelled. -/
theorem Broken.move (regular : w.Regular rules)
    (error : res < 0) (executed : Executed w q res data w₁) (other : k ≠ w.cfg.listener)
    (registered : w.connections.lookup k = some o) {p : Sqe} (inside : p ∈ q :: rest)
    (key : p.key = k) :
    View.Move w.cfg rules exact' (w.view k o) ((w₁.arrive chain []
      ({ sqe := q, res := res, nonempty := nonempty, data := data } ::
        rest.map Sqe.cancelled)).view k o) := by
  generalize first : ({ sqe := q, res := res, nonempty := nonempty, data := data } : Cqe) = c
  have sqe : c.sqe = q := by rw [← first]
  obtain ⟨all, none'⟩ := todo_arrive_in broken.ground.solo broken.found
    (by rw [broken.cfg]; exact other) inside key (c :: rest.map Sqe.cancelled)
  rw [broken.todo] at all
  rw [broken.view, none', completed_cancelled sqe broken.flags, broken.completed]
  by_cases head : q.key = k
  · subst head
    rw [filter_cons_of_pos (by simp)] at all
    have life : q.life = (w.heap o).life :=
      ((regular.tidy registered other).own q (mem_append_right _
        (mem_filter.mpr ⟨broken.members q mem_cons_self, by simp⟩))).2.2.2
    have history : w₁.histories (w.heap o).life = if q.flag = .write then
        { w.histories (w.heap o).life with sendFailed := true }
        else w.histories (w.heap o).life := by
      rcases executed.of_error error with ⟨rfl, notWrite, _⟩ | ⟨write, rfl⟩
      · rw [if_neg notWrite]
      · rw [if_pos write, ← life]
        exact update_self ..
    rw [history, if_pos rfl, ← first]
    exact .failed all error
  · rw [filter_cons_of_neg (by simpa using head)] at all
    have history : w₁.histories (w.heap o).life = w.histories (w.heap o).life :=
      regular.failed_histories (broken.members q mem_cons_self) executed error
        fun o' registered' _ same => head (regular.sane.lifeInj registered' registered same)
    rw [history, if_neg head, nil_append, ← all]
    exact .cancelled

/-- The listener of a consumer has no part in the chain, and that of a shard only accepts. -/
theorem Broken.listener (regular : w.Regular rules) (sqe : c.sqe = q) :
    ((w₁.arrive chain [] (c :: rest.map Sqe.cancelled)).todo w.cfg.listener =
        w.todo w.cfg.listener ∧
      (w₁.arrive chain [] (c :: rest.map Sqe.cancelled)).completed w.cfg.listener =
        w.completed w.cfg.listener) ∨
    w.cfg.kind = .shard ∧
      (∀ p ∈ (w₁.arrive chain [] (c :: rest.map Sqe.cancelled)).todo w.cfg.listener,
        p.flag = .accept) ∧
      ∀ d ∈ (w₁.arrive chain [] (c :: rest.map Sqe.cancelled)).completed w.cfg.listener,
        d.sqe.flag = .accept := by
  cases kind : w.cfg.kind with
  | consumer =>
    refine Or.inl (broken.outside sqe fun p inside key => ?_)
    have mine : p ∈ w.todo w.cfg.listener :=
      mem_filter.mpr ⟨broken.members p inside, by simpa using key⟩
    rw [(regular.consumer kind).2.1] at mine
    cases mine
  | shard =>
    refine Or.inr ⟨rfl, ?_, ?_⟩
    · intro p inside
      have before := mem_todo_arrive inside broken.found (by simp)
      rw [broken.todo] at before
      exact regular.accepts.1 p before
    · intro d inside
      rw [completed_arrive] at inside
      rcases mem_append.mp inside with old | added
      · rw [broken.completed] at old
        exact regular.accepts.2 d old
      · obtain ⟨place, mine⟩ := mem_filter.mp added
        have key : d.sqe.key = w.cfg.listener := by
          simp only [decide_eq_true_eq] at mine
          exact mine.1
        have member : d.sqe ∈ q :: rest := by
          rcases mem_cons.mp place with rfl | place
          · rw [sqe]
            exact mem_cons_self
          · obtain ⟨p, member, rfl⟩ := mem_map.mp place
            exact mem_cons_of_mem _ member
        rcases regular.request_cases (broken.members _ member) with ⟨_, _, flag⟩ | ⟨other, _⟩
        · exact flag
        · exact absurd key other

end Broken

/-- The first request of a chain has failed, and the others are cancelled. -/
theorem Regular.failed (regular : w.Regular rules) (found : w.inflight[chain]? = some (q :: rest))
    (error : res < 0) (executed : Executed w q res data w₁) :
    Leads rules exact' w (w₁.arrive chain []
      ({ sqe := q, res := res, nonempty := nonempty, data := data } ::
        rest.map Sqe.cancelled)) := by
  have broken := regular.broken found error executed
  have histories : ∀ {life}, (∀ o, w.connections.lookup q.key = some o →
      q.key ≠ w.cfg.listener → (w.heap o).life ≠ life) → w₁.histories life = w.histories life :=
    regular.failed_histories (broken.members q mem_cons_self) executed error
  have news : ∀ d ∈ ({ sqe := q, res := res, nonempty := nonempty, data := data } : Cqe) ::
      rest.map Sqe.cancelled, d.sqe.flag ≠ .addConn ∧
        (d.sqe.flag = .accept → 0 ≤ d.res → w₁.cfg.Fresh d.res) := by
    intro d inside
    rcases mem_cons.mp inside with rfl | inside
    · exact ⟨broken.flags q mem_cons_self, fun _ fine => absurd error (not_lt.mpr fine)⟩
    · obtain ⟨p, member, rfl⟩ := mem_map.mp inside
      refine ⟨broken.flags p (mem_cons_of_mem _ member), fun _ fine => ?_⟩
      change 0 ≤ ecanceled at fine
      exact absurd fine (by decide)
  refine .carried regular (broken.ground.arrive broken.found (by simp) news)
    ⟨broken.cfg, broken.connections, broken.heap, broken.tasks, broken.queue, broken.nextLife,
      ?_, ?_, ?_, broken.listener regular rfl⟩
  · intro life past
    exact histories fun o registered other => past other registered
  · intro k o other registered
    by_cases chained : ∃ p ∈ q :: rest, p.key = k
    · obtain ⟨p, inside, key⟩ := chained
      exact Or.inr (broken.move regular error executed other registered inside key)
    · left
      have none' : ∀ p ∈ q :: rest, p.key ≠ k := fun p inside key => chained ⟨p, inside, key⟩
      have history : w₁.histories (w.heap o).life = w.histories (w.heap o).life :=
        histories fun o' registered' _ same =>
          none' q mem_cons_self (regular.sane.lifeInj registered' registered same)
      obtain ⟨todo, completed⟩ := broken.outside
        (c := ⟨q, res, nonempty, data⟩) rfl none'
      rw [broken.view, todo, completed, history]
      rfl
  · intro k other absent
    refine broken.outside rfl ?_
    rintro p inside rfl
    rcases regular.request_cases (broken.members p inside) with ⟨_, key, _⟩ | ⟨_, o, registered, _⟩
    · exact other key
    · rw [absent] at registered
      cases registered

end Worker

end Gain
