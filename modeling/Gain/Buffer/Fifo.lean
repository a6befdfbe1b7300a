import Gain.Buffer.Operations

/-! # The ring buffer is an unbounded byte queue

The abstract queue is a list of bytes. Every operation of the ring buffer has a
meaning on it (`Gain.RingBuffer.Op.spec`) that knows nothing of indices, sizes
or memories, and growing has the meaning of doing nothing. A run of operations
on a ring buffer returns the replies of the queue, whatever memory growing is
given and wherever the content wraps.
-/

namespace Gain.RingBuffer

open List Option

/-- What a call returns; a part the operation does not return is left at its default. -/
structure Reply where
  count : Int := 0
  bytes : List UInt8 := []
  err : Option Error := none
  deriving DecidableEq, Repr

inductive Op where
  | write (buffer : List UInt8)
  | writeByte (c : UInt8)
  /-- `Read` into a buffer with the given bytes; the reply has the buffer afterwards. -/
  | read (buffer : List UInt8)
  | readByte
  | peek (n : Int)
  | bytes
  | next (n : Int)
  | discard (n : Int)
  | reset
  | advanceRead (n : Int)
  /-- The kernel stores bytes at `WriteAddress`, and `AdvanceWrite` counts them. -/
  | kernelFill (data : List UInt8)
  | grow (newCap : Int)
  | growIfUnsufficientFreeSpace

variable {size : Int}

namespace Op

section Run

variable {σ : Type} (source : MemSource σ)

def exec (rb : RingBuffer) (s : σ) : Op → Option (Reply × RingBuffer × σ)
  | write buffer => do
    let (n, rb, s) ← rb.write source buffer s
    return ({ count := n }, rb, s)
  | writeByte c => do
    let (rb, s) ← rb.writeByte source c s
    return ({}, rb, s)
  | read buffer => do
    let ((n, err, buffer), rb) ← rb.read buffer
    return ({ count := n, err := err, bytes := buffer }, rb, s)
  | readByte => do
    let ((b, err), rb) ← rb.readByte
    return ({ bytes := [b], err := err }, rb, s)
  | peek n => do
    let found ← rb.peek n
    return ({ bytes := found }, rb, s)
  | bytes => do
    let found ← rb.bytes
    return ({ bytes := found }, rb, s)
  | next n => do
    let ((found, err), rb) ← rb.next n
    return ({ bytes := found, err := err }, rb, s)
  | discard n => do
    let (n, rb) ← rb.discard n
    return ({ count := n }, rb, s)
  | reset => return ({}, rb.reset, s)
  | advanceRead n => do
    let rb ← rb.advanceRead n
    return ({}, rb, s)
  | kernelFill data => do
    let a ← rb.writeAddress
    let rb ← (rb.deposit a data).advanceWrite data.length
    return ({}, rb, s)
  | grow newCap => do
    let (rb, s) ← rb.grow source newCap s
    return ({}, rb, s)
  | growIfUnsufficientFreeSpace => do
    let (rb, s) ← rb.growIfUnsufficientFreeSpace source s
    return ({}, rb, s)

/-- The replies of successive operations, and the buffer after them. -/
def run : List Op → RingBuffer → σ → Option (List Reply × RingBuffer × σ)
  | [], rb, s => some ([], rb, s)
  | op :: ops, rb, s => do
    let (reply, rb, s) ← op.exec source rb s
    let (replies, rb, s) ← run ops rb s
    return (reply :: replies, rb, s)

/-- What the caller of an operation has to respect. -/
def Allowed (rb : RingBuffer) : Op → Prop
  | discard n => 0 ≤ n
  | advanceRead n => 0 ≤ n ∧ n ≤ rb.buffered
  | kernelFill data => data.length ≤ rb.available
  | grow newCap => rb.buffered < newCap
  | _ => True

instance (rb : RingBuffer) : (op : Op) → Decidable (op.Allowed rb)
  | discard n => inferInstanceAs (Decidable (0 ≤ n))
  | advanceRead n => inferInstanceAs (Decidable (0 ≤ n ∧ n ≤ rb.buffered))
  | kernelFill data => inferInstanceAs (Decidable ((data.length : Int) ≤ rb.available))
  | grow newCap => inferInstanceAs (Decidable (rb.buffered < newCap))
  | write _ | writeByte _ | read _ | readByte | peek _ | bytes | next _ | reset
  | growIfUnsufficientFreeSpace => inferInstanceAs (Decidable True)

/-- Every operation is allowed in the state it is called in. -/
def Admissible : List Op → RingBuffer → σ → Prop
  | [], _, _ => True
  | op :: ops, rb, s => op.Allowed rb ∧
      ∀ reply rb' s', op.exec source rb s = some (reply, rb', s') → Admissible ops rb' s'

end Run

/-- The operation on the queue. -/
def spec (queue : List UInt8) : Op → Reply × List UInt8
  | write buffer => ({ count := buffer.length }, queue ++ buffer)
  | writeByte c => ({}, queue ++ [c])
  | read buffer =>
    let n := min queue.length buffer.length
    if buffer = [] then ({ bytes := buffer }, queue)
    else if queue = [] then ({ err := some .isEmpty, bytes := buffer }, queue)
    else ({ count := n, bytes := queue.take n ++ buffer.drop n }, queue.drop n)
  | readByte =>
    match queue with
    | [] => ({ bytes := [0], err := some .isEmpty }, [])
    | b :: queue => ({ bytes := [b] }, queue)
  | peek n => ({ bytes := if n ≤ 0 then queue else queue.take n.toNat }, queue)
  | bytes => ({ bytes := queue }, queue)
  | next n =>
    if n > queue.length then ({ err := some .shortBuffer }, queue)
    else if n ≤ 0 then ({ bytes := queue }, [])
    else ({ bytes := queue.take n.toNat }, queue.drop n.toNat)
  | discard n => ({ count := min n queue.length }, queue.drop n.toNat)
  | reset => ({}, [])
  | advanceRead n => ({}, queue.drop n.toNat)
  | kernelFill data => ({}, queue ++ data)
  | grow _ => ({}, queue)
  | growIfUnsufficientFreeSpace => ({}, queue)

def specRun (queue : List UInt8) : List Op → List Reply × List UInt8
  | [] => ([], queue)
  | op :: ops =>
    let (reply, queue) := op.spec queue
    let (replies, queue) := specRun queue ops
    (reply :: replies, queue)

section Simulation

variable {σ : Type} {source : MemSource σ} (mirrored : source.Mirrored)

/-- A page-rounded positive size is positive. -/
private theorem ready_of_pos (mirrored : source.Mirrored) (pos : 0 < size) (s : σ) :
    source.Ready (adjustBufferSize source.pageSize size) s :=
  mirrored _ _ (lt_of_lt_of_le pos (le_adjustBufferSize source.pageSize_pos size))

private theorem exec_read (buffer : List UInt8) (l : Layout) (s : σ) : ∃ l' : Layout,
    (read buffer).exec source l.toRing s =
      some (((read buffer).spec l.content).1, l'.toRing, s) ∧
    l'.content = ((read buffer).spec l.content).2 := by
  rcases eq_or_ne buffer [] with rfl | some
  · exact ⟨l, rfl, rfl⟩
  have positive := length_pos_of_ne_nil some
  cases flag : l.isEmpty with
  | true =>
    have empty := (l.content_eq_nil_iff).mpr flag
    refine ⟨l, ?_, ?_⟩
    · simp only [exec, RingBuffer.read, l.toRing_readUpTo_of_isEmpty positive flag, spec,
        some, empty, ↓reduceIte]
      rfl
    · simp only [spec, some, empty, ↓reduceIte]
  | false =>
    have nonempty : l.content ≠ [] := by
      rw [Ne, l.content_eq_nil_iff, flag]
      exact Bool.false_ne_true
    obtain ⟨l', took, content, _⟩ := l.toRing_readUpTo buffer.length positive flag
    have size : (l.content.take (min l.count buffer.length)).length =
        min l.count buffer.length := by
      rw [length_take, l.content_length, Nat.min_assoc, Nat.min_comm buffer.length,
        ← Nat.min_assoc, Nat.min_self]
    refine ⟨l', ?_, ?_⟩
    · simp only [exec, RingBuffer.read, took, spec, some, nonempty, ↓reduceIte,
        l.content_length, bind_eq_bind, bind_some, Option.pure_def, size]
    · simp only [spec, some, nonempty, ↓reduceIte, content, l.content_length]

/-- `Next` refuses more than there is, and takes everything for a length that is not positive. -/
private theorem exec_next (n : Int) (l : Layout) (s : σ) : ∃ l' : Layout,
    (next n).exec source l.toRing s = some (((next n).spec l.content).1, l'.toRing, s) ∧
    l'.content = ((next n).spec l.content).2 := by
  by_cases more : n > l.count
  · refine ⟨l, ?_, ?_⟩
    · simp only [exec, l.toRing_next_of_gt more, spec, l.content_length, more, ↓reduceIte]
      rfl
    · simp only [spec, l.content_length, more, ↓reduceIte]
  by_cases nonpos : n ≤ 0
  · obtain ⟨l', took, content, _⟩ := l.toRing_next (n := n) le_rfl (by rw [if_pos nonpos])
    rw [take_of_length_le (by rw [l.content_length])] at took
    rw [drop_of_length_le (by rw [l.content_length])] at content
    refine ⟨l', ?_, ?_⟩
    · simp only [exec, took, spec, l.content_length, more, nonpos, ↓reduceIte]
      rfl
    · simp only [spec, l.content_length, more, nonpos, ↓reduceIte, content]
  · obtain ⟨k, rfl⟩ := Int.eq_ofNat_of_zero_le (by omega : 0 ≤ n)
    obtain ⟨l', took, content, _⟩ := l.toRing_next (n := (k : Int)) (k := k) (by omega)
      (by rw [if_neg nonpos])
    refine ⟨l', ?_, ?_⟩
    · simp only [exec, took, spec, l.content_length, more, nonpos, ↓reduceIte, Int.toNat_natCast]
      rfl
    · simp only [spec, l.content_length, more, nonpos, ↓reduceIte, Int.toNat_natCast, content]

include mirrored in
/-- One operation on a well-formed buffer is the operation on its content. -/
theorem exec_toRing (op : Op) (l : Layout) (s : σ) (allowed : op.Allowed l.toRing) :
    ∃ (l' : Layout) (s' : σ), op.exec source l.toRing s =
        some ((op.spec l.content).1, l'.toRing, s') ∧ l'.content = (op.spec l.content).2 := by
  have bound := l.count_le
  have pos := l.pos
  cases op with
  | write buffer =>
    rcases eq_or_ne buffer [] with rfl | some
    · exact ⟨l, s, rfl, (append_nil _).symm⟩
    · have positive := length_pos_of_ne_nil some
      obtain ⟨l', s', wrote, content, _⟩ := l.toRing_write some (s := s)
        (fun _ => ready_of_pos mirrored (by
          rw [Layout.toRing_available, Layout.toRing_size]; omega) s)
      refine ⟨l', s', ?_, content⟩
      simp only [exec, wrote]
      rfl
  | writeByte c =>
    obtain ⟨l', s', wrote, content, _⟩ := l.toRing_writeByte c (s := s)
      (fun _ => ready_of_pos mirrored (by rw [Layout.toRing_size]; omega) s)
    refine ⟨l', s', ?_, content⟩
    simp only [exec, wrote]
    rfl
  | read buffer =>
    obtain ⟨l', done, content⟩ := exec_read buffer l s
    exact ⟨l', s, done, content⟩
  | readByte =>
    cases queue : l.content with
    | nil =>
      have flag := (l.content_eq_nil_iff).mp queue
      refine ⟨l, s, ?_, queue⟩
      simp only [exec, l.toRing_readByte_of_isEmpty flag]
      rfl
    | cons b rest =>
      obtain ⟨l', took, content, _⟩ := l.toRing_readByte queue
      refine ⟨l', s, ?_, content⟩
      simp only [exec, took]
      rfl
  | peek n =>
    refine ⟨l, s, ?_, rfl⟩
    simp only [exec, l.toRing_peek n]
    rfl
  | bytes =>
    refine ⟨l, s, ?_, rfl⟩
    simp only [exec, l.toRing_bytes]
    rfl
  | next n =>
    obtain ⟨l', done, content⟩ := exec_next n l s
    exact ⟨l', s, done, content⟩
  | discard n =>
    obtain ⟨k, rfl⟩ := Int.eq_ofNat_of_zero_le allowed
    obtain ⟨l', dropped, content, _⟩ := l.toRing_discard k
    have amount : ((min k l.count : Nat) : Int) = min (k : Int) l.count := by omega
    rw [amount] at dropped
    refine ⟨l', s, ?_, content⟩
    simp only [exec, dropped, spec, l.content_length]
    rfl
  | reset => exact ⟨l.clear, s, rfl, l.clear_content⟩
  | advanceRead n =>
    obtain ⟨k, rfl⟩ := Int.eq_ofNat_of_zero_le allowed.1
    have within := allowed.2
    rw [Layout.toRing_buffered] at within
    obtain ⟨l', moved, content, _⟩ := l.toRing_advanceRead (n := k) (by omega)
    refine ⟨l', s, ?_, content⟩
    simp only [exec, moved]
    rfl
  | kernelFill data =>
    have room : (data.length : Int) ≤ l.toRing.available := allowed
    rw [Layout.toRing_available] at room
    have fits : l.count + data.length ≤ l.mem.size := by omega
    obtain ⟨l', moved, content, _⟩ := (l.store data).toRing_advanceWrite (n := data.length) fits
    rw [l.store_content fits, l.store_spare fits] at content
    refine ⟨l', s, ?_, content⟩
    simp only [exec, l.toRing_writeAddress, bind_eq_bind, bind_some, l.toRing_deposit, moved]
    rfl
  | grow newCap =>
    have more : l.toRing.buffered < newCap := allowed
    rw [Layout.toRing_buffered] at more
    obtain ⟨l', s', grown, content, _⟩ := l.toRing_grow more
      (ready_of_pos mirrored (by omega) s)
    refine ⟨l', s', ?_, content⟩
    simp only [exec, grown]
    rfl
  | growIfUnsufficientFreeSpace =>
    obtain ⟨l', s', grown, content, _⟩ := l.toRing_growIfUnsufficientFreeSpace (s := s)
      (fun _ => ready_of_pos mirrored (by unfold minRead; omega) s)
    refine ⟨l', s', ?_, content⟩
    simp only [exec, grown]
    rfl

include mirrored in
/-- A run on a layout does what the queue does. -/
theorem run_toRing (ops : List Op) (l : Layout) (s : σ)
    (admissible : Admissible source ops l.toRing s) :
    ∃ (l' : Layout) (s' : σ), run source ops l.toRing s =
        some ((specRun l.content ops).1, l'.toRing, s') ∧
      l'.content = (specRun l.content ops).2 := by
  induction ops generalizing l s with
  | nil => exact ⟨l, s, rfl, rfl⟩
  | cons op ops ih =>
    obtain ⟨l₁, s₁, first, content₁⟩ := exec_toRing mirrored op l s admissible.1
    obtain ⟨l', s', rest, content⟩ := ih l₁ s₁ (admissible.2 _ _ _ first)
    rw [content₁] at rest content
    refine ⟨l', s', ?_, content⟩
    simp only [run, first, rest, bind_eq_bind, bind_some]
    rfl

end Simulation

end Op

/-- A new buffer of positive size is well formed and empty. -/
theorem newMagicBuffer_toRing {σ : Type} {source : MemSource σ} (mirrored : source.Mirrored)
    (pos : 0 < size) (s : σ) :
    ∃ l : Layout, (newMagicBuffer source size s).1 = l.toRing ∧ l.content = [] := by
  obtain ⟨m, s', got, sized⟩ := mirrored (adjustBufferSize source.pageSize size) s
    (lt_of_lt_of_le pos (le_adjustBufferSize source.pageSize_pos size))
  have larger := le_adjustBufferSize source.pageSize_pos size
  have positive : 0 < m.size := by omega
  refine ⟨⟨m, 0, 0, true, positive, positive, positive, fun _ => rfl⟩, ?_,
    (Layout.content_eq_nil_iff _).mpr rfl⟩
  simp only [newMagicBuffer, pos.ne', ↓reduceIte, got]
  rw [← sized]
  rfl

/-- **The ring buffer is a byte queue.** From a new buffer of any positive size,
every run of admissible operations goes through without a panic, gives the
replies of the queue, and ends in a buffer whose content `Buf[r : r+Buffered()]`
is the queue and whose buffered and free bytes make up its size. -/
theorem run_eq_specRun {σ : Type} (source : MemSource σ) (mirrored : source.Mirrored)
    (size : Int) (pos : 0 < size) (s : σ) (ops : List Op)
    (admissible : Op.Admissible source ops (newMagicBuffer source size s).1
      (newMagicBuffer source size s).2) :
    ∃ (rb : RingBuffer) (s' : σ),
      Op.run source ops (newMagicBuffer source size s).1 (newMagicBuffer source size s).2 =
        some ((Op.specRun [] ops).1, rb, s') ∧
      rb.slice rb.r (rb.r + rb.buffered) = some (Op.specRun [] ops).2 ∧
      rb.buffered = (Op.specRun [] ops).2.length ∧
      rb.buffered + rb.available = rb.size := by
  obtain ⟨l, fresh, empty⟩ := newMagicBuffer_toRing mirrored pos s
  rw [fresh] at admissible ⊢
  obtain ⟨l', s', ran, content⟩ := Op.run_toRing mirrored ops l _ admissible
  rw [empty] at ran content
  refine ⟨l'.toRing, s', ran, ?_, ?_, ?_⟩
  · rw [Layout.toRing_buffered]
    change l'.toRing.slice l'.r (l'.r + l'.count) = _
    rw [l'.toRing_slice_content le_rfl, take_of_length_le l'.content_length.le, content]
  · rw [Layout.toRing_buffered, ← content, l'.content_length]
  · rw [Layout.toRing_buffered, Layout.toRing_available, Layout.toRing_size]
    omega

/-- A source that maps a new region on every request. -/
def freshSource : MemSource Nat where
  pageSize := 4096
  pageSize_pos := by decide
  get := fun size next => (some ⟨next, size.toNat, fun _ => 0⟩, next + 1)
  put := fun _ next => next

theorem run_eq_specRun_freshSource :
    ∃ (rb : RingBuffer) (s' : Nat),
      Op.run freshSource [.write [104, 105, 106], .kernelFill [107], .next 2, .readByte]
        (newMagicBuffer freshSource 1 0).1 (newMagicBuffer freshSource 1 0).2 =
          some ([{ count := 3 }, {}, { bytes := [104, 105] }, { bytes := [106] }], rb, s') ∧
      rb.slice rb.r (rb.r + rb.buffered) = some [107] ∧ rb.buffered = 1 ∧
      rb.buffered + rb.available = rb.size := by
  have mirrored : freshSource.Mirrored := by
    intro size s pos
    exact ⟨_, _, rfl, Int.toNat_of_nonneg pos.le⟩
  refine run_eq_specRun freshSource mirrored 1 (by decide) 0 _ ⟨trivial, ?_⟩
  intro _ rb s first
  refine ⟨?_, fun _ _ _ _ => ⟨trivial, fun _ _ _ _ => ⟨trivial, fun _ _ _ _ => trivial⟩⟩⟩
  cases first
  decide

end Gain.RingBuffer
