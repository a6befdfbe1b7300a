import Gain.Buffer.Layout

/-! # The ring buffer's operations on well-formed buffers

One statement per operation: on a well-formed buffer it does not panic, returns
what the content determines, and leaves a well-formed buffer whose content is
the expected one.
-/

namespace Gain

open List Mirror Option VirtualMem

namespace Layout

variable (l : Layout)

/-- Moving the read index over `n` buffered bytes, with the reset when it meets
the write index, drops these bytes. -/
theorem toRing_moveRead (n : Nat) (some : 0 < n) (le : n ≤ l.count) :
    ∃ l' : Layout, l.toRing.moveRead ((l.r + n) % l.mem.size : Nat) = l'.toRing ∧
      l'.content = l.content.drop n ∧ l'.mem = l.mem := by
  rcases Nat.lt_or_eq_of_le le with lt | rfl
  · refine ⟨l.skip n lt, ?_, l.skip_content lt, rfl⟩
    have apart : ¬ (((l.r + n) % l.mem.size : Nat) : Int) = l.toRing.w :=
      fun same => l.skip_r_ne_w lt some (Int.natCast_inj.mp same)
    rw [RingBuffer.moveRead, if_neg apart]
    rfl
  · refine ⟨l.clear, ?_, ?_, rfl⟩
    · have meet : (l.w : Int) = l.toRing.w := rfl
      rw [← l.w_eq, RingBuffer.moveRead, if_pos meet]
      rfl
    · rw [clear_content, drop_of_length_le (content_length l).le]

/-- What is read is taken off the front. -/
theorem toRing_readUpTo (limit : Nat) (some : 0 < limit) (full : l.isEmpty = false) :
    ∃ l' : Layout, l.toRing.readUpTo limit =
        Option.some ((((min l.count limit : Nat) : Int), none,
          l.content.take (min l.count limit)), l'.toRing) ∧
      l'.content = l.content.drop (min l.count limit) ∧ l'.mem = l.mem := by
  have positive := l.count_pos full
  have amount : (if l.toRing.buffered > (limit : Int) then (limit : Int) else l.toRing.buffered) =
      ((min l.count limit : Nat) : Int) := by
    rw [toRing_buffered]
    split_ifs <;> omega
  obtain ⟨l', moved, content, mem⟩ :=
    l.toRing_moveRead (min l.count limit) (by omega) (Nat.min_le_left ..)
  refine ⟨l', ?_, content, mem⟩
  have taken := l.toRing_slice_content (Nat.min_le_left l.count limit)
  have wrapped : goMod ((l.r : Int) + (min l.count limit : Nat)) l.mem.size =
      Option.some (((l.r + min l.count limit) % l.mem.size : Nat) : Int) :=
    goMod_natCast (l.r + min l.count limit) l.pos
  have nonzero : ¬ (limit : Int) = 0 := by omega
  have flag : l.toRing.isEmpty = false := full
  simp only [RingBuffer.readUpTo, nonzero, flag, amount, Bool.false_eq_true, ↓reduceIte]
  change (l.toRing.slice (l.r : Int) ((l.r : Int) + (min l.count limit : Nat)) >>= _) = _
  rw [taken]
  change (goMod ((l.r : Int) + (min l.count limit : Nat)) l.mem.size >>= _) = _
  rw [wrapped]
  change Option.some (_, l.toRing.moveRead _) = _
  rw [moved]

/-- Reading from an empty buffer reports it and changes nothing. -/
theorem toRing_readUpTo_of_isEmpty {limit : Nat} (some : 0 < limit) (empty : l.isEmpty = true) :
    l.toRing.readUpTo limit = Option.some ((0, Option.some .isEmpty, []), l.toRing) := by
  have nonzero : ¬ (limit : Int) = 0 := by omega
  have flag : l.toRing.isEmpty = true := empty
  simp only [RingBuffer.readUpTo, nonzero, flag, ↓reduceIte]

/-- The first bytes are dropped. -/
theorem toRing_advanceRead {n : Nat} (le : n ≤ l.count) :
    ∃ l' : Layout, l.toRing.advanceRead n = some l'.toRing ∧
      l'.content = l.content.drop n ∧ l'.mem = l.mem := by
  rcases Nat.eq_zero_or_pos n with rfl | pos
  · exact ⟨l, rfl, drop_zero.symm, rfl⟩
  · obtain ⟨l', moved, content, mem⟩ := l.toRing_moveRead n pos le
    refine ⟨l', ?_, content, mem⟩
    have lt := l.r_lt
    have bound := l.count_le
    have nonzero : ¬ (n : Int) = 0 := by omega
    have within : ¬ (n : Int) > l.toRing.buffered := by rw [toRing_buffered]; omega
    have wrap := wrap_eq (l.r + n) l.mem.size (by omega)
    simp only [RingBuffer.advanceRead, nonzero, within, ↓reduceIte]
    rw [← moved, wrap]
    change (if (l.r : Int) + n ≥ (l.mem.size : Int) then
      some (l.toRing.moveRead ((l.r : Int) + n - l.mem.size)) else
        some (l.toRing.moveRead ((l.r : Int) + n))) = _
    split_ifs
    · omega
    · congr 2
      omega
    · congr 2
    · omega

/-- Bytes that appear at the write address lie behind the content. -/
theorem toRing_deposit (data : List UInt8) :
    l.toRing.deposit ⟨l.mem.addr, l.w⟩ data = (l.store data).toRing := by
  simp only [RingBuffer.deposit, deposit, toRing, map_some, ↓reduceIte, store]

/-- The bytes behind the last one now count. -/
theorem toRing_advanceWrite {n : Nat} (room : l.count + n ≤ l.mem.size) :
    ∃ l' : Layout, l.toRing.advanceWrite n = some l'.toRing ∧
      l'.content = l.content ++ l.spare n ∧ l'.mem = l.mem := by
  rcases Nat.eq_zero_or_pos n with rfl | pos
  · exact ⟨l, rfl, (append_nil _).symm, rfl⟩
  · refine ⟨l.extend n, ?_, l.extend_content pos room, rfl⟩
    have lt := l.w_lt
    have nonzero : ¬ (n : Int) = 0 := by omega
    have within : ¬ (n : Int) > l.toRing.available := by rw [toRing_available]; omega
    have wrap := wrap_eq (l.w + n) l.mem.size (by omega)
    simp only [RingBuffer.advanceWrite, nonzero, within, ↓reduceIte]
    change (if (l.w : Int) + n ≥ (l.mem.size : Int) then
        some (⟨some l.mem, l.mem.size, l.r, (l.w : Int) + n - l.mem.size, false⟩ : RingBuffer)
      else some ⟨some l.mem, l.mem.size, l.r, (l.w : Int) + n, false⟩) =
        some ⟨some l.mem, l.mem.size, l.r, ((l.w + n) % l.mem.size : Nat), false⟩
    rw [wrap]
    split_ifs
    · omega
    · congr 2
      omega
    · congr 2
    · omega

theorem toRing_writeAddress : l.toRing.writeAddress = some ⟨l.mem.addr, l.w⟩ := by
  have lt := l.w_lt
  have inside : 0 ≤ (l.w : Int) ∧ (l.w : Int) < 2 * l.mem.size := by omega
  simp only [RingBuffer.writeAddress, RingBuffer.addressOf, toRing_vm, toRing_w, bind_some,
    get?, inside, and_self, ↓reduceIte, map_some, Int.toNat_natCast]

theorem toRing_readAddress : l.toRing.readAddress = some ⟨l.mem.addr, l.r⟩ := by
  have lt := l.r_lt
  have inside : 0 ≤ (l.r : Int) ∧ (l.r : Int) < 2 * l.mem.size := by omega
  simp only [RingBuffer.readAddress, RingBuffer.addressOf, toRing_vm, toRing_r, bind_some,
    get?, inside, and_self, ↓reduceIte, map_some, Int.toNat_natCast]

/-- At most what is there is dropped. -/
theorem toRing_discard (n : Nat) :
    ∃ l' : Layout, l.toRing.discard n = some (((min n l.count : Nat) : Int), l'.toRing) ∧
      l'.content = l.content.drop n ∧ l'.mem = l.mem := by
  rcases Nat.eq_zero_or_pos n with rfl | pos
  · exact ⟨l, by simp [RingBuffer.discard], drop_zero.symm, rfl⟩
  · have nonzero : ¬ (n : Int) = 0 := by omega
    rcases Nat.lt_or_ge n l.count with lt | ge
    · refine ⟨l.skip n lt, ?_, l.skip_content lt, rfl⟩
      have within : (n : Int) < l.toRing.buffered := by rw [toRing_buffered]; omega
      simp only [RingBuffer.discard, nonzero, within, ↓reduceIte]
      have wrapped : goMod (l.toRing.r + (n : Int)) l.toRing.size =
          some (((l.r + n) % l.mem.size : Nat) : Int) := goMod_natCast (l.r + n) l.pos
      rw [wrapped, Nat.min_eq_left lt.le]
      rfl
    · refine ⟨l.clear, ?_, ?_, rfl⟩
      · have outside : ¬ (n : Int) < l.toRing.buffered := by rw [toRing_buffered]; omega
        simp only [RingBuffer.discard, nonzero, outside, ↓reduceIte]
        rw [toRing_buffered, Nat.min_eq_right ge]
        rfl
      · rw [clear_content, drop_of_length_le (by rw [content_length]; exact ge)]

theorem toRing_peek (n : Int) :
    l.toRing.peek n = some (if n ≤ 0 then l.content else l.content.take n.toNat) := by
  cases flag : l.isEmpty with
  | true =>
    have empty := (l.content_eq_nil_iff).mpr flag
    have ring : l.toRing.isEmpty = true := flag
    simp only [RingBuffer.peek, ring, ↓reduceIte, empty, take_nil, ite_self]
  | false =>
    have ring : l.toRing.isEmpty = false := flag
    have all : l.toRing.slice l.r (l.r + l.count) = some l.content := by
      rw [l.toRing_slice_content le_rfl, take_of_length_le (content_length l).le]
    simp only [RingBuffer.peek, RingBuffer.peekAll, ring, Bool.false_eq_true, ↓reduceIte]
    split_ifs with nonpos more
    · rw [toRing_buffered]
      exact all
    · rw [toRing_buffered] at more
      obtain ⟨k, rfl⟩ := Int.eq_ofNat_of_zero_le (by omega : 0 ≤ n)
      exact l.toRing_slice_content (by omega)
    · rw [toRing_buffered] at more ⊢
      rw [take_of_length_le (by rw [content_length]; omega)]
      exact all

theorem toRing_bytes : l.toRing.bytes = some l.content := by
  have all := l.toRing_peek 0
  simp only [RingBuffer.peek, RingBuffer.peekAll, le_refl, ↓reduceIte] at all
  rw [← all, RingBuffer.bytes]
  split_ifs <;> rfl

variable {n : Int}

theorem toRing_next_of_gt (l : Layout) (more : n > l.count) :
    l.toRing.next n = some (([], some .shortBuffer), l.toRing) := by
  have beyond : n > l.toRing.buffered := by rw [toRing_buffered]; exact more
  simp only [RingBuffer.next, beyond, ↓reduceIte]

/-- `Next` of a non-positive number takes everything. -/
theorem toRing_next (l : Layout) {k : Nat} (le : k ≤ l.count)
    (amount : (if n ≤ 0 then (l.count : Int) else n) = k) :
    ∃ l' : Layout, l.toRing.next n = some ((l.content.take k, none), l'.toRing) ∧
      l'.content = l.content.drop k ∧ l'.mem = l.mem := by
  obtain ⟨l', dropped, content, mem⟩ := l.toRing_discard k
  refine ⟨l', ?_, content, mem⟩
  have within : ¬ n > l.toRing.buffered := by
    rw [toRing_buffered]
    split_ifs at amount <;> omega
  simp only [RingBuffer.next, within, ↓reduceIte]
  rw [toRing_buffered, amount]
  have taken : l.toRing.slice l.toRing.r (l.toRing.r + k) = some (l.content.take k) :=
    l.toRing_slice_content le
  rw [taken]
  change (l.toRing.discard k >>= _) = _
  rw [dropped]
  rfl

/-- The first byte is taken. -/
theorem toRing_readByte (l : Layout) {b : UInt8} {rest : List UInt8}
    (content : l.content = b :: rest) :
    ∃ l' : Layout, l.toRing.readByte = some ((b, none), l'.toRing) ∧
      l'.content = rest ∧ l'.mem = l.mem := by
  have full : l.isEmpty = false := by
    cases flag : l.isEmpty with
    | false => rfl
    | true => rw [(l.content_eq_nil_iff).mpr flag] at content; cases content
  have positive := l.count_pos full
  obtain ⟨l', moved, dropped, mem⟩ := l.toRing_moveRead 1 one_pos positive
  refine ⟨l', ?_, by rw [dropped, content]; rfl, mem⟩
  have lt := l.r_lt
  have first : l.mem.cells (l.r % l.mem.size) = b := by
    have head : l.content = window l.mem.cells l.mem.size l.r (l.count - 1 + 1) := by
      rw [Nat.sub_add_cancel positive]
      rfl
    rw [head, window_succ] at content
    exact (List.cons.inj content).1
  have fetched : (l.toRing.vm.bind fun m => m.get? l.toRing.r) = some b := by
    change l.mem.get? (l.r : Int) = some b
    rw [get?, if_pos (by omega), ← first]
    rfl
  have ring : l.toRing.isEmpty = false := full
  have wrap := wrap_eq (l.r + 1) l.mem.size (by omega)
  simp only [RingBuffer.readByte, ring, Bool.false_eq_true, ↓reduceIte, fetched]
  change some ((b, none), l.toRing.moveRead
    (if (l.r : Int) + 1 = l.mem.size then 0 else (l.r : Int) + 1)) = _
  rw [← moved, wrap]
  congr 3
  split_ifs <;> omega

theorem toRing_readByte_of_isEmpty (l : Layout) (empty : l.isEmpty = true) :
    l.toRing.readByte = some ((0, some .isEmpty), l.toRing) := by
  have ring : l.toRing.isEmpty = true := empty
  simp only [RingBuffer.readByte, ring, ↓reduceIte]

/-! ### What is taken, and what is left -/

/-- Nothing is lost or reordered by `Next`. -/
theorem toRing_next_split (l : Layout) (n : Int) :
    ∃ (l' : Layout) (bytes : List UInt8) (err : Option Error),
      l.toRing.next n = some ((bytes, err), l'.toRing) ∧ bytes ++ l'.content = l.content := by
  by_cases more : n > l.count
  · exact ⟨l, [], _, l.toRing_next_of_gt more, rfl⟩
  · obtain ⟨k, amount⟩ : ∃ k : Nat, (if n ≤ 0 then (l.count : Int) else n) = k := by
      split_ifs with none'
      · exact ⟨l.count, rfl⟩
      · exact ⟨n.toNat, (Int.toNat_of_nonneg (by omega)).symm⟩
    have le : k ≤ l.count := by
      split_ifs at amount <;> omega
    obtain ⟨l', took, content, _⟩ := l.toRing_next le amount
    refine ⟨l', _, _, took, ?_⟩
    rw [content, take_append_drop]

theorem toRing_discard_split (l : Layout) (nonneg : 0 ≤ n) :
    ∃ (l' : Layout) (count : Int), l.toRing.discard n = some (count, l'.toRing) ∧
      l.content.take count.toNat ++ l'.content = l.content := by
  obtain ⟨k, rfl⟩ := Int.eq_ofNat_of_zero_le nonneg
  obtain ⟨l', dropped, content, _⟩ := l.toRing_discard k
  refine ⟨l', _, dropped, ?_⟩
  rw [content, Int.toNat_natCast]
  rcases Nat.le_total k l.count with le | ge
  · rw [Nat.min_eq_left le, take_append_drop]
  · rw [Nat.min_eq_right ge, drop_of_length_le (by simpa using ge), append_nil,
      take_of_length_le (by simp)]

theorem toRing_read_split (l : Layout) (buffer : List UInt8) :
    ∃ (l' : Layout) (n : Int) (err : Option Error) (after : List UInt8),
      l.toRing.read buffer = some ((n, err, after), l'.toRing) ∧
        after.take n.toNat ++ l'.content = l.content := by
  rcases Nat.eq_zero_or_pos buffer.length with zero | pos
  · refine ⟨l, 0, none, buffer, ?_, rfl⟩
    simp [RingBuffer.read, RingBuffer.readUpTo, zero]
  · cases flag : l.isEmpty with
    | true =>
      refine ⟨l, 0, some .isEmpty, buffer, ?_, rfl⟩
      simp [RingBuffer.read, l.toRing_readUpTo_of_isEmpty pos flag]
    | false =>
      obtain ⟨l', read, content, _⟩ := l.toRing_readUpTo buffer.length pos flag
      refine ⟨l', (min l.count buffer.length : Nat), none,
        l.content.take (min l.count buffer.length) ++
        buffer.drop (min l.count buffer.length), by simp [RingBuffer.read, read], ?_⟩
      have whole : (l.content.take (min l.count buffer.length)).length =
          min l.count buffer.length := by simp
      rw [content, Int.toNat_natCast]
      rw [take_append_of_le_length (by rw [whole]), take_of_length_le (by rw [whole]),
        take_append_drop]

end Layout

theorem le_adjustBufferSize {pageSize : Nat} (pos : 0 < pageSize) (size : Int) :
    size ≤ adjustBufferSize pageSize size := by
  have page : (pageSize : Int) ≠ 0 := by omega
  have below := Int.ediv_mul_le (-size) page
  unfold adjustBufferSize
  rw [Int.neg_mul]
  omega

namespace Layout

section Growth

variable {σ : Type} (source : MemSource σ)

/-- What an operation that may grow does to the memory: the buffer keeps it, or
has a new one from the source and has given the old one back. -/
inductive Supplied (l : Layout) (s : σ) (l' : Layout) : σ → Prop
  | kept (addr : l'.mem.addr = l.mem.addr) (size : l'.mem.size = l.mem.size) :
      Supplied l s l' s
  | grown {n : Int} {m : VirtualMem} {s₁ : σ} (got : source.get n s = (some m, s₁))
      (addr : l'.mem.addr = m.addr) (size : l'.mem.size = m.size) :
      Supplied l s l' (source.put l.mem s₁)

variable {source} {newCap : Int}

theorem Supplied.extended {l l' l'' : Layout} {s s' : σ} (supplied : Supplied source l s l' s')
    (addr : l''.mem.addr = l'.mem.addr) (size : l''.mem.size = l'.mem.size) :
    Supplied source l s l'' s' := by
  cases supplied with
  | kept sameAddr sameSize => exact .kept (addr.trans sameAddr) (size.trans sameSize)
  | grown got newAddr newSize => exact .grown got (addr.trans newAddr) (size.trans newSize)

/-- The content moves to the front of the new memory. -/
theorem toRing_grow (l : Layout) (more : newCap > l.count) {s : σ}
    (ready : source.Ready (adjustBufferSize source.pageSize newCap) s) :
    ∃ (l' : Layout) (s' : σ), l.toRing.grow source newCap s = some (l'.toRing, s') ∧
      l'.content = l.content ∧ newCap ≤ l'.mem.size ∧ Supplied source l s l' s' := by
  obtain ⟨m, s₁, got, sized⟩ := ready
  have larger := le_adjustBufferSize source.pageSize_pos newCap
  have room : l.count < m.size := by omega
  have fits : l.content.length < m.size := by rwa [content_length]
  have moved : ∃ reply rb, l.toRing.readUpTo (2 * (m.size : Int)) = some (reply, rb) ∧
      reply.2.2 = l.content ∧ rb.vm = some l.mem ∧ (l.count = 0 → rb.isEmpty = true) := by
    rw [show 2 * (m.size : Int) = ((2 * m.size : Nat) : Int) by omega]
    cases flag : l.isEmpty with
    | true =>
      refine ⟨_, _, l.toRing_readUpTo_of_isEmpty (by omega) flag, ?_, rfl, fun _ => flag⟩
      exact ((l.content_eq_nil_iff).mpr flag).symm
    | false =>
      obtain ⟨l', took, content, mem⟩ := l.toRing_readUpTo (2 * m.size) (by omega) flag
      have positive := l.count_pos flag
      refine ⟨_, _, took, ?_, ?_, ?_⟩
      · exact take_of_length_le (by rw [content_length]; omega)
      · rw [toRing_vm, mem]
      · intro none
        omega
  obtain ⟨reply, rb, read, bytes, vm, emptied⟩ := moved
  obtain ⟨count, err, data⟩ := reply
  subst bytes
  refine ⟨atFront m l.content fits, source.put l.mem s₁, ?_, atFront_content ..,
    larger.trans sized.ge, .grown got rfl rfl⟩
  have copied : m.copyAt? 0 l.content =
      some { m with cells := fill m.cells m.size 0 l.content } := by
    rw [copyAt?, if_pos (by omega)]
    congr 3
    exact take_of_length_le (by simp only [Int.toNat_zero]; omega)
  have flag : (if (l.count : Int) > 0 then false else rb.isEmpty) = l.content.isEmpty := by
    split_ifs with positive
    · rw [eq_comm, isEmpty_eq_false_iff, ← length_pos_iff, content_length]
      omega
    · have none : l.count = 0 := by omega
      rw [emptied none, eq_comm, List.isEmpty_iff, ← length_eq_zero_iff, content_length, none]
  unfold RingBuffer.grow
  simp only [got, toRing_buffered, read, copied, vm, flag, bind_eq_bind, bind_some]
  simp only [toRing, atFront, sized, content_length]
  rfl

/-- Growing on demand: nothing happens while there is room. -/
theorem toRing_growWhen (l : Layout) (needed : Prop) [Decidable needed] {s : σ}
    (more : needed → newCap > l.count)
    (ready : needed → source.Ready (adjustBufferSize source.pageSize newCap) s) :
    ∃ (l' : Layout) (s' : σ),
      l.toRing.growWhen source needed newCap s = some (l'.toRing, s') ∧
      l'.content = l.content ∧ (needed → newCap ≤ l'.mem.size) ∧
      (¬ needed → l'.mem.size = l.mem.size) ∧ Supplied source l s l' s' := by
  by_cases need : needed
  · obtain ⟨l', s', grown, content, room, supplied⟩ := l.toRing_grow (more need) (ready need)
    refine ⟨l', s', ?_, content, fun _ => room, fun absent => absurd need absent, supplied⟩
    simp only [RingBuffer.growWhen, need, decide_true, ↓reduceIte, grown]
  · refine ⟨l, s, ?_, rfl, fun present => absurd present need, fun _ => rfl, .kept rfl rfl⟩
    simp only [RingBuffer.growWhen, need, decide_false, Bool.false_eq_true, ↓reduceIte]

/-- There is room for a read, and the content stays. -/
theorem toRing_growIfUnsufficientFreeSpace (l : Layout) {s : σ}
    (ready : l.toRing.available < minRead →
      source.Ready (adjustBufferSize source.pageSize (l.count + minRead)) s) :
    ∃ (l' : Layout) (s' : σ),
      l.toRing.growIfUnsufficientFreeSpace source s = some (l'.toRing, s') ∧
      l'.content = l.content ∧ l'.count + 1024 ≤ l'.mem.size ∧ Supplied source l s l' s' := by
  obtain ⟨l', s', grown, content, large, same, supplied⟩ :=
    l.toRing_growWhen (l.toRing.available < minRead)
      (fun _ => (by unfold minRead; omega : (l.count : Int) + minRead > l.count)) ready
  refine ⟨l', s', ?_, content, ?_, supplied⟩
  · rw [RingBuffer.growIfUnsufficientFreeSpace, toRing_buffered]
    exact grown
  · have count : l'.count = l.count := by rw [← content_length, content, content_length]
    rw [toRing_available] at large same
    unfold minRead at large same
    omega

/-- Storing behind the content and moving the write index, as both writes do. -/
theorem toRing_store (l : Layout) {data : List UInt8} (fits : l.count + data.length ≤ l.mem.size) :
    l.toRing.store data = some (l.store data).toRing := by
  have lt := l.w_lt
  have whole : data.take (2 * l.mem.size - l.w) = data := take_of_length_le (by omega)
  simp only [RingBuffer.store, toRing_vm, bind_some, toRing_w, copyAt?]
  have inside : 0 ≤ (l.w : Int) ∧ (l.w : Int) ≤ 2 * l.mem.size := by omega
  simp only [inside, and_self, ↓reduceIte, map_some, Int.toNat_natCast, whole]
  rfl

/-- The bytes are put behind the content. -/
theorem toRing_write (l : Layout) {buffer : List UInt8} (some : buffer ≠ []) {s : σ}
    (ready : (buffer.length : Int) > l.toRing.available →
      source.Ready (adjustBufferSize source.pageSize
        (l.toRing.size + buffer.length - l.toRing.available)) s) :
    ∃ (l' : Layout) (s' : σ), l.toRing.write source buffer s =
        Option.some ((buffer.length : Int), l'.toRing, s') ∧
      l'.content = l.content ++ buffer ∧ Supplied source l s l' s' := by
  have positive := length_pos_of_ne_nil some
  have nonzero : ¬ buffer.length = 0 := by omega
  have needs : ((buffer.length : Int) > l.toRing.available →
      l.toRing.size + buffer.length - l.toRing.available > l.count) := by
    rw [toRing_available, toRing_size]
    omega
  obtain ⟨g, s', grown, content, large, same, supplied⟩ :=
    l.toRing_growWhen ((buffer.length : Int) > l.toRing.available) needs ready
  have count : g.count = l.count := by rw [← content_length, content, content_length]
  have fits : g.count + buffer.length ≤ g.mem.size := by
    rw [toRing_available, toRing_size] at large
    rw [toRing_available] at same
    omega
  refine ⟨(g.store buffer).extend buffer.length, s', ?_, ?_, supplied.extended rfl rfl⟩
  · have wrapped : goMod ((g.w : Int) + buffer.length) g.mem.size =
        Option.some (((g.w + buffer.length) % g.mem.size : Nat) : Int) :=
      goMod_natCast (g.w + buffer.length) g.pos
    simp only [RingBuffer.write, nonzero, ↓reduceIte, grown, bind_eq_bind,
      bind_some, g.toRing_store fits]
    change (goMod ((g.w : Int) + buffer.length) g.mem.size).bind _ = _
    rw [wrapped]
    rfl
  · rw [(g.store buffer).extend_content positive fits, g.store_content fits, content,
      g.store_spare fits]

/-- One byte is put behind the content. -/
theorem toRing_writeByte (l : Layout) (c : UInt8) {s : σ}
    (ready : l.toRing.available < 1 →
      source.Ready (adjustBufferSize source.pageSize (l.toRing.size + 1)) s) :
    ∃ (l' : Layout) (s' : σ), l.toRing.writeByte source c s = some (l'.toRing, s') ∧
      l'.content = l.content ++ [c] ∧ Supplied source l s l' s' := by
  have bound := l.count_le
  have needs : (l.toRing.available < 1 → l.toRing.size + 1 > l.count) := by
    rw [toRing_size]
    omega
  obtain ⟨g, s', grown, content, large, same, supplied⟩ :=
    l.toRing_growWhen (l.toRing.available < 1) needs ready
  have count : g.count = l.count := by rw [← content_length, content, content_length]
  have fits : g.count + [c].length ≤ g.mem.size := by
    rw [toRing_available, toRing_size] at large
    rw [toRing_available] at same
    simp only [length_singleton]
    omega
  refine ⟨(g.store [c]).extend 1, s', ?_, ?_, supplied.extended rfl rfl⟩
  · have lt := g.w_lt
    have inside : 0 ≤ (g.w : Int) ∧ (g.w : Int) < 2 * g.mem.size := by omega
    have put : g.mem.set? (g.w : Int) c =
        some { g.mem with cells := fill g.mem.cells g.mem.size g.w [c] } := by
      rw [set?, if_pos inside]
      rfl
    have wrap := wrap_eq (g.w + 1) g.mem.size (by omega)
    simp only [RingBuffer.writeByte, grown, bind_eq_bind, bind_some, toRing_vm, toRing_w, put]
    change some ((⟨_, _, _, if (g.w : Int) + 1 = g.mem.size then 0 else (g.w : Int) + 1, false⟩ :
      RingBuffer), s') = some ((⟨_, _, _, ((g.w + 1) % g.mem.size : Nat), false⟩ : RingBuffer), s')
    rw [wrap]
    congr 3
    split_ifs <;> omega
  · rw [(g.store [c]).extend_content one_pos fits, g.store_content fits, content]
    exact congrArg (l.content ++ ·) (g.store_spare fits)

end Growth

end Layout

namespace RingBuffer

variable {σ : Type} {source : MemSource σ} {rb rb' : RingBuffer} {s s' : σ}

/-- One read of `ReadFrom`: the buffer grows if it has little space, and stores what the reader
has. -/
inductive Filled (source : MemSource σ) (data : List UInt8) (rb : RingBuffer) (s : σ) :
    RingBuffer → σ → Prop
  | mk {rb₁ rb₂ : RingBuffer} {s₁ : σ} {w : Int}
      (grown : rb.growIfUnsufficientFreeSpace source s = some (rb₁, s₁))
      (short : ¬ (data.length : Int) > rb₁.available) (stored : rb₁.store data = some rb₂)
      (moved : goMod (rb₂.w + data.length) rb₂.size = some w) :
      Filled source data rb s { rb₂ with w := w, isEmpty := false } s₁

/-- The reads of `ReadFrom`. -/
inductive Reads (source : MemSource σ) (last : List UInt8) :
    List (List UInt8) → RingBuffer → σ → RingBuffer → σ → Prop
  | last {rb rb' : RingBuffer} {s s' : σ} (filled : Filled source last rb s rb' s') :
      Reads source last [] rb s rb' s'
  | chunk {chunk : List UInt8} {chunks : List (List UInt8)} {rb rb₁ rb' : RingBuffer} {s s₁ s' : σ}
      (filled : Filled source chunk rb s rb₁ s₁) (more : Reads source last chunks rb₁ s₁ rb' s') :
      Reads source last (chunk :: chunks) rb s rb' s'

/-- The rounds of `ReadFrom`. -/
theorem readFrom_reads {chunks : List (List UInt8)} {last : List UInt8} {final : Error}
    {reply : Int × Option Error}
    (read : rb.readFrom source chunks last final s = some (reply, rb', s')) :
    Reads source last chunks rb s rb' s' := by
  induction chunks generalizing rb s reply with
  | nil =>
    unfold readFrom at read
    obtain ⟨⟨rb₁, s₁⟩, grown, rest⟩ := bind_eq_some_iff.mp read
    obtain ⟨_, _, rest⟩ := bind_eq_some_iff.mp rest
    by_cases long : (last.length : Int) > rb₁.available
    · simp only [if_pos long, reduceCtorEq] at rest
    simp only [if_neg long] at rest
    obtain ⟨rb₂, stored, rest⟩ := bind_eq_some_iff.mp rest
    obtain ⟨w, moved, rest⟩ := bind_eq_some_iff.mp rest
    cases rest
    exact .last ⟨grown, long, stored, moved⟩
  | cons chunk chunks ih =>
    unfold readFrom at read
    obtain ⟨⟨rb₁, s₁⟩, grown, rest⟩ := bind_eq_some_iff.mp read
    obtain ⟨_, _, rest⟩ := bind_eq_some_iff.mp rest
    by_cases long : (chunk.length : Int) > rb₁.available
    · simp only [if_pos long, reduceCtorEq] at rest
    simp only [if_neg long] at rest
    obtain ⟨rb₂, stored, rest⟩ := bind_eq_some_iff.mp rest
    obtain ⟨w, moved, rest⟩ := bind_eq_some_iff.mp rest
    obtain ⟨⟨reply', rb₃, s₃⟩, more, rest⟩ := bind_eq_some_iff.mp rest
    cases rest
    exact .chunk ⟨grown, long, stored, moved⟩ (ih more)

end RingBuffer

end Gain
