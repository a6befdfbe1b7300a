import Gain.Worker.Acts

/-! # The bytes a handler moves

As long as the memory pool answers with the sizes asked for, the outbound buffer
of a connection holds, behind what it held before, what the handler's calls have
written since.
-/

namespace Gain

open List Option VirtualMem

variable {l : Layout} {op : ConnOp} {ops : List ConnOp}

namespace Layout

variable {pageSize : Nat} {pos : 0 < pageSize} {s s' : Ledger} {rb' : RingBuffer}

/-- A write whose requests for memory were answered exactly appends the bytes. -/
theorem write_content (l : Layout) {buffer : List UInt8} {n : Int}
    (wrote : l.toRing.write (Ledger.source pageSize pos) buffer s = some (n, rb', s'))
    (exact' : ∀ q ∈ s'.requests, q.Exact pageSize) :
    ∃ l' : Layout, rb' = l'.toRing ∧ l'.content = l.content ++ buffer := by
  by_cases none' : buffer = []
  · subst none'
    cases wrote
    exact ⟨l, rfl, (append_nil _).symm⟩
  · obtain ⟨l', s₁, done, content, _⟩ :=
      l.toRing_write none' fun need => RingBuffer.write_ready none' wrote exact' need
    cases wrote.symm.trans done
    exact ⟨l', rfl, content⟩

/-- A growth whose request was answered exactly keeps the content. -/
theorem growIfUnsufficientFreeSpace_content (l : Layout)
    (grown : l.toRing.growIfUnsufficientFreeSpace (Ledger.source pageSize pos) s = some (rb', s'))
    (exact' : ∀ q ∈ s'.requests, q.Exact pageSize) :
    ∃ l' : Layout, rb' = l'.toRing ∧ l'.content = l.content := by
  have ready : l.toRing.available < minRead →
      (Ledger.source pageSize pos).Ready
        (adjustBufferSize pageSize (l.count + minRead)) s := by
    intro need
    rw [← toRing_buffered]
    exact RingBuffer.growWhen_ready grown exact' need
  obtain ⟨l', s₁, done, content, _⟩ := l.toRing_growIfUnsufficientFreeSpace ready
  cases grown.symm.trans done
  exact ⟨l', rfl, content⟩

/-- Some bytes are stored behind the content and counted. -/
theorem store_extend {data : List UInt8} (some' : data ≠ [])
    (short : ¬ (data.length : Int) > l.toRing.available) {rb₂ : RingBuffer}
    (stored : l.toRing.store data = some rb₂) {w : Int}
    (moved : goMod (rb₂.w + data.length) rb₂.size = some w) :
    ∃ l' : Layout, ({ rb₂ with w := w, isEmpty := false } : RingBuffer) = l'.toRing ∧
      l'.content = l.content ++ data := by
  have fits : l.count + data.length ≤ l.mem.size := by
    rw [toRing_available] at short
    have := l.count_le
    omega
  rw [l.toRing_store fits] at stored
  cases stored
  have wrapped : goMod ((l.w : Int) + data.length) l.mem.size =
      some (((l.w + data.length) % l.mem.size : Nat) : Int) :=
    goMod_natCast (l.w + data.length) l.pos
  cases moved.symm.trans wrapped
  refine ⟨(l.store data).extend data.length, rfl, ?_⟩
  rw [(l.store data).extend_content (length_pos_of_ne_nil some') fits, l.store_content fits,
    l.store_spare fits]

theorem filled_content (l : Layout) {data : List UInt8} (some' : data ≠ [])
    (filled : RingBuffer.Filled (Ledger.source pageSize pos) data l.toRing s rb' s')
    (exact' : ∀ q ∈ s'.requests, q.Exact pageSize) :
    ∃ l' : Layout, rb' = l'.toRing ∧ l'.content = l.content ++ data := by
  obtain ⟨grown, short, stored, moved⟩ := filled
  obtain ⟨g, rfl, content⟩ := l.growIfUnsufficientFreeSpace_content grown exact'
  rw [← content]
  exact store_extend some' short stored moved

/-- Reading from a reader that always has some bytes appends them. -/
theorem readFrom_content (l : Layout) {chunks : List (List UInt8)} {last : List UInt8}
    {final : Error} {reply : Int × Option Error} (pieces : ∀ chunk ∈ chunks, chunk ≠ [])
    (end' : last ≠ [])
    (read : l.toRing.readFrom (Ledger.source pageSize pos) chunks last final s =
      some (reply, rb', s')) (exact' : ∀ q ∈ s'.requests, q.Exact pageSize) :
    ∃ l' : Layout, rb' = l'.toRing ∧ l'.content = l.content ++ (chunks.flatten ++ last) := by
  have reads := RingBuffer.readFrom_reads read
  clear read
  generalize same : l.toRing = rb at reads
  induction reads generalizing l with
  | last filled =>
    subst same
    exact l.filled_content end' filled exact'
  | @chunk chunk chunks rb rb₁ rb' s s₁ s' filled more ih =>
    subst same
    have before : ∀ q ∈ s₁.requests, q.Exact pageSize := by
      obtain ⟨made, appended⟩ := (RingBuffer.Supplies.of_resizes more.resizes).requests
      intro q member
      refine exact' q ?_
      rw [appended]
      exact mem_append_left _ member
    obtain ⟨k, rfl, content⟩ := l.filled_content (pieces chunk mem_cons_self) filled before
    obtain ⟨l', same', content'⟩ :=
      ih k (fun chunk member => pieces chunk (mem_cons_of_mem _ member)) exact' rfl
    refine ⟨l', same', ?_⟩
    rw [content', content, flatten_cons, append_assoc, append_assoc]

end Layout

/-- The call is a `Write` of at least one byte. -/
def ConnOp.replies : ConnOp → Bool
  | .write buffer => !buffer.isEmpty
  | _ => false

/-- The call is not a `ReadFrom` with a reader that has no bytes at some point, after which the
buffer may count as full. -/
def ConnOp.faithful : ConnOp → Bool
  | .readFrom chunks last _ => chunks.all (fun chunk => !chunk.isEmpty) && !last.isEmpty
  | _ => true

/-- The call is `Read`, `Next`, `Peek`, `Discard` of a number that is not negative, `Write` or
`Close`. -/
def ConnOp.steady : ConnOp → Bool
  | .discard n => 0 ≤ n
  | .readFrom .. | .writeTo .. => false
  | _ => true

theorem ConnOp.faithful_of_steady (steady : op.steady = true) : op.faithful = true := by
  cases op with
  | readFrom chunks last final => cases steady
  | read _ | next _ | peek _ | discard _ | write _ | close | writeTo _ _ => rfl

namespace Session

variable {cfg : Config} {x x' : Session}

/-- The inbound methods leave the outbound buffer alone. -/
theorem call_outboundBuffer (called : x.call cfg.source op = some x') :
    (x'.conn.outboundBuffer = x.conn.outboundBuffer ∧
        x'.history.written = x.history.written ∧ op.replies = false) ∨
      (∃ buffer, op = .write buffer) ∨ ∃ chunks last final, op = .readFrom chunks last final := by
  cases op with
  | write buffer => exact Or.inr (Or.inl ⟨buffer, rfl⟩)
  | readFrom chunks last final => exact Or.inr (Or.inr ⟨chunks, last, final, rfl⟩)
  | close =>
    cases called
    refine Or.inl ⟨?_, rfl, rfl⟩
    unfold Session.close Connection.close
    split_ifs <;> rfl
  | discard n =>
    rcases onInbound_cases called with rfl | ⟨rb, _, _, ran⟩
    · exact Or.inl ⟨rfl, rfl, rfl⟩
    · obtain ⟨content, _, rest⟩ := bind_eq_some_iff.mp ran
      obtain ⟨⟨count, rb'⟩, _, last⟩ := bind_eq_some_iff.mp rest
      cases last
      exact Or.inl ⟨rfl, rfl, rfl⟩
  | read buffer | next n | peek n | writeTo written err =>
    rcases onInbound_cases called with rfl | ⟨rb, _, _, ran⟩
    · exact Or.inl ⟨rfl, rfl, rfl⟩
    · obtain ⟨answer, _, last⟩ := bind_eq_some_iff.mp ran
      cases last
      exact Or.inl ⟨rfl, rfl, rfl⟩

theorem fired_frame (x : Session) (callback : Callback) :
    Frame cfg x (x.setUserSpace.fired callback) :=
  .of_same rfl rfl rfl rfl rfl rfl rfl ⟨rfl, rfl, rfl, rfl⟩ rfl ⟨[], rfl, by simp⟩

/-- What a call writes lies behind the content of the outbound buffer. -/
theorem call_written (present : x.conn.outboundBuffer = some l.toRing)
    (faithful : op.faithful = true) (called : x.call cfg.source op = some x')
    (exact' : ∀ q ∈ x'.mem.requests, q.Exact cfg.pageSize) :
    ∃ (l' : Layout) (bytes : List UInt8), x'.conn.outboundBuffer = some l'.toRing ∧
      l'.content = l.content ++ bytes ∧ x'.history.written = x.history.written ++ bytes := by
  have nothing : ∃ (l' : Layout) (bytes : List UInt8), x.conn.outboundBuffer = some l'.toRing ∧
      l'.content = l.content ++ bytes ∧ x.history.written = x.history.written ++ bytes :=
    ⟨l, [], present, (append_nil _).symm, (append_nil _).symm⟩
  rcases call_outboundBuffer called with
    ⟨same, still, _⟩ | ⟨buffer, rfl⟩ | ⟨chunks, last, final, rfl⟩
  · rw [same, still]
    exact nothing
  · rcases onOutbound_cases called with rfl | ⟨rb, _, here, ran⟩
    · exact nothing
    · cases present.symm.trans here
      obtain ⟨⟨n, rb', mem⟩, wrote, done⟩ := bind_eq_some_iff.mp ran
      cases done
      obtain ⟨l', rfl, content⟩ := l.write_content wrote exact'
      exact ⟨l', buffer, rfl, content, rfl⟩
  · rcases onOutbound_cases called with rfl | ⟨rb, _, here, ran⟩
    · exact nothing
    · cases present.symm.trans here
      obtain ⟨⟨n, rb', mem⟩, read, done⟩ := bind_eq_some_iff.mp ran
      cases done
      obtain ⟨pieces, end'⟩ := Bool.and_eq_true_iff.mp faithful
      have some' : ∀ chunk ∈ chunks, chunk ≠ [] := by simpa using pieces
      obtain ⟨l', rfl, content⟩ := l.readFrom_content some' (by simpa using end') read exact'
      exact ⟨l', chunks.flatten ++ last, rfl, content, rfl⟩

/-- Calls only append to the outbound buffer. -/
theorem calls_written (present : x.conn.outboundBuffer = some l.toRing)
    (faithful : ∀ op ∈ ops, op.faithful = true) (done : calls cfg.source ops x = some x')
    (exact' : ∀ q ∈ x'.mem.requests, q.Exact cfg.pageSize) :
    ∃ (l' : Layout) (bytes : List UInt8), x'.conn.outboundBuffer = some l'.toRing ∧
      l'.content = l.content ++ bytes ∧ x'.history.written = x.history.written ++ bytes := by
  induction ops generalizing x l with
  | nil =>
    cases done
    exact ⟨l, [], present, (append_nil _).symm, (append_nil _).symm⟩
  | cons op ops ih =>
    obtain ⟨x₁, first, rest⟩ := bind_eq_some_iff.mp done
    have before := (calls_frame rest).exact_before exact'
    obtain ⟨k, bytes, present₁, content, written⟩ :=
      call_written present (faithful op mem_cons_self) first before
    obtain ⟨l', more, present', content', written'⟩ :=
      ih present₁ (fun op member => faithful op (mem_cons_of_mem _ member)) rest
    refine ⟨l', bytes ++ more, present', ?_, ?_⟩
    · rw [content', content, append_assoc]
    · rw [written', written, append_assoc]

/-- What a call consumes is taken from the front of the inbound buffer. -/
theorem call_consumed (present : x.conn.inboundBuffer = some l.toRing) (steady : op.steady = true)
    (called : x.call cfg.source op = some x') :
    ∃ l' : Layout, x'.conn.inboundBuffer = some l'.toRing ∧
      x'.history.consumed ++ l'.content = x.history.consumed ++ l.content := by
  cases op with
  | readFrom _ _ _ | writeTo _ _ => cases steady
  | close =>
    cases called
    refine ⟨l, ?_, rfl⟩
    unfold Session.close Connection.close
    split_ifs <;> exact present
  | write buffer =>
    rcases onOutbound_cases called with rfl | ⟨rb, _, _, ran⟩
    · exact ⟨l, present, rfl⟩
    · obtain ⟨⟨n, rb', mem⟩, _, done⟩ := bind_eq_some_iff.mp ran
      cases done
      exact ⟨l, present, rfl⟩
  | read buffer =>
    rcases onInbound_cases called with rfl | ⟨rb, _, here, ran⟩
    · exact ⟨l, present, rfl⟩
    · cases present.symm.trans here
      obtain ⟨answer, read, done⟩ := bind_eq_some_iff.mp ran
      obtain ⟨l', n, err, after, same, split⟩ := l.toRing_read_split buffer
      cases read.symm.trans same
      cases done
      refine ⟨l', rfl, ?_⟩
      change x.history.consumed ++ after.take n.toNat ++ l'.content = _
      rw [append_assoc, split]
  | next n =>
    rcases onInbound_cases called with rfl | ⟨rb, _, here, ran⟩
    · exact ⟨l, present, rfl⟩
    · cases present.symm.trans here
      obtain ⟨answer, took, done⟩ := bind_eq_some_iff.mp ran
      obtain ⟨l', bytes, err, same, split⟩ := l.toRing_next_split n
      cases took.symm.trans same
      cases done
      refine ⟨l', rfl, ?_⟩
      change x.history.consumed ++ bytes ++ l'.content = _
      rw [append_assoc, split]
  | peek n =>
    rcases onInbound_cases called with rfl | ⟨rb, _, _, ran⟩
    · exact ⟨l, present, rfl⟩
    · obtain ⟨answer, _, done⟩ := bind_eq_some_iff.mp ran
      cases done
      exact ⟨l, present, rfl⟩
  | discard n =>
    rcases onInbound_cases called with rfl | ⟨rb, _, here, ran⟩
    · exact ⟨l, present, rfl⟩
    · cases present.symm.trans here
      obtain ⟨content, bytes, rest⟩ := bind_eq_some_iff.mp ran
      obtain ⟨answer, dropped, done⟩ := bind_eq_some_iff.mp rest
      obtain ⟨l', count, same, split⟩ := l.toRing_discard_split (of_decide_eq_true steady)
      cases bytes.symm.trans l.toRing_bytes
      cases dropped.symm.trans same
      cases done
      refine ⟨l', rfl, ?_⟩
      change x.history.consumed ++ l.content.take count.toNat ++ l'.content = _
      rw [append_assoc, split]

/-- Calls only take from the inbound buffer. -/
theorem calls_consumed (present : x.conn.inboundBuffer = some l.toRing)
    (steady : ∀ op ∈ ops, op.steady = true) (done : calls cfg.source ops x = some x') :
    ∃ l' : Layout, x'.conn.inboundBuffer = some l'.toRing ∧
      x'.history.consumed ++ l'.content = x.history.consumed ++ l.content := by
  induction ops generalizing x l with
  | nil =>
    cases done
    exact ⟨l, present, rfl⟩
  | cons op ops ih =>
    obtain ⟨x₁, first, rest⟩ := bind_eq_some_iff.mp done
    obtain ⟨k, present₁, same⟩ := call_consumed present (steady op mem_cons_self) first
    obtain ⟨l', present', same'⟩ :=
      ih present₁ (fun op member => steady op (mem_cons_of_mem _ member)) rest
    exact ⟨l', present', same'.trans same⟩

end Session

/-- Every buffer the connection has is at least one page long. -/
def Connection.Paged (pageSize : Nat) (c : Connection) : Prop :=
  (∀ rb, c.inboundBuffer = some rb → rb.Paged pageSize) ∧
    ∀ rb, c.outboundBuffer = some rb → rb.Paged pageSize

namespace Session

variable {cfg : Config} {x x' : Session}

/-- A method keeps the buffers a page long. -/
theorem Method.paged (method : Method cfg x x') (paged : x.conn.Paged cfg.pageSize) :
    x'.conn.Paged cfg.pageSize := by
  cases method with
  | refused => exact paged
  | inbound present supplies _ =>
    refine ⟨fun rb here => ?_, paged.2⟩
    cases here
    exact (supplies x.mem).paged (paged.1 _ present)
  | outbound present supplies _ =>
    refine ⟨paged.1, fun rb here => ?_⟩
    cases here
    exact supplies.paged (paged.2 _ present)
  | close =>
    unfold Session.close Connection.close
    split_ifs <;> exact paged

theorem calls_paged (paged : x.conn.Paged cfg.pageSize) (done : calls cfg.source ops x = some x') :
    x'.conn.Paged cfg.pageSize := by
  induction ops generalizing x with
  | nil =>
    cases done
    exact paged
  | cons op ops ih =>
    obtain ⟨x₁, first, rest⟩ := bind_eq_some_iff.mp done
    exact ih ((call_method first).paged paged) rest

end Session

end Gain
