import Gain.Foundation.Run
import Gain.Buffer.ReadFrom

/-! # All calls on a ring buffer

A buffer holds a queue of bytes when it is in order and the queue is its content.
Every call that respects what it is called for takes a buffer that holds a queue
to one that holds the queue after it, also when the buffer was made with size 0
and has no memory yet. So the states that such calls lead to are in order.
-/

namespace Gain

open List Option

namespace Layout

variable {m : Nat}

/-- `WriteTo` offers the content, moves the read index past what the writer took, and takes
indices that meet for a buffer that was emptied. -/
theorem toRing_writeTo_eq (l : Layout) (some' : l.isEmpty = false) (le : m ≤ l.count)
    (err : Option Error) :
    l.toRing.writeTo m err = some ((l.content, (m : Int), err.or
        (if (l.toRing.moveRead ((l.r + m) % l.mem.size : Nat)).isEmpty = true then none
          else some .shortWrite)),
      l.toRing.moveRead ((l.r + m) % l.mem.size : Nat)) := by
  have offered : l.toRing.slice l.r (l.r + l.toRing.buffered) = some l.content := by
    rw [toRing_buffered, l.toRing_slice_content le_rfl, take_of_length_le l.content_length.le]
  have within : ¬ (m : Int) > l.toRing.buffered := by
    rw [toRing_buffered]
    omega
  have wrapped : goMod ((l.r : Int) + m) l.mem.size = some (((l.r + m) % l.mem.size : Nat) : Int) :=
    goMod_natCast (l.r + m) l.pos
  have flag : l.toRing.isEmpty = false := some'
  unfold RingBuffer.writeTo
  rw [if_neg (by rw [flag]; exact Bool.false_ne_true)]
  change (l.toRing.slice l.r (l.r + l.toRing.buffered) >>= _) = _
  rw [offered, bind_eq_bind, bind_some, if_neg within]
  change (goMod ((l.r : Int) + m) l.mem.size >>= _) = _
  rw [wrapped, bind_eq_bind, bind_some]
  cases err with
  | some e => rfl
  | none =>
    dsimp only
    split_ifs
    · rfl
    · rfl

/-- The writer leaves what it did not take. Only when it takes nothing of a full buffer the
indices meet although the content is still there. -/
theorem toRing_writeTo (l : Layout) (full : l.isEmpty = false) (le : m ≤ l.count)
    (moves : l.toRing.isFull = true → 0 < m) (err : Option Error) :
    ∃ l' : Layout, l.toRing.writeTo m err = some ((l.content, (m : Int),
        err.or (if m < l.count then some .shortWrite else none)), l'.toRing) ∧
      l'.content = l.content.drop m := by
  obtain ⟨l', moved, content⟩ : ∃ l' : Layout,
      l.toRing.moveRead ((l.r + m) % l.mem.size : Nat) = l'.toRing ∧
      l'.content = l.content.drop m := by
    rcases Nat.eq_zero_or_pos m with rfl | pos
    · have apart : (l.r : Int) ≠ l.toRing.w := by
        intro meet
        refine absurd (moves ?_) (lt_irrefl 0)
        simp [RingBuffer.isFull, meet, full]
      refine ⟨l, ?_, drop_zero.symm⟩
      rw [Nat.add_zero, Nat.mod_eq_of_lt l.r_lt, RingBuffer.moveRead, if_neg apart]
      rfl
    · obtain ⟨l', moved, content, _⟩ := l.toRing_moveRead m pos le
      exact ⟨l', moved, content⟩
  refine ⟨l', ?_, content⟩
  have emptied : l'.toRing.isEmpty = true ↔ ¬ m < l.count := by
    rw [toRing_isEmpty, ← l'.content_eq_nil_iff, content, drop_eq_nil_iff, l.content_length, not_lt]
  rw [l.toRing_writeTo_eq full le, moved]
  simp only [emptied, ite_not]

/-- A writer that takes nothing of a full buffer leaves an empty one. -/
theorem toRing_writeTo_zero (l : Layout) (full : l.toRing.isFull = true) (err : Option Error) :
    l.toRing.writeTo 0 err = some ((l.content, 0, err), l.toRing.reset) := by
  obtain ⟨meet, some'⟩ : l.toRing.r = l.toRing.w ∧ l.isEmpty = false := by
    simpa [RingBuffer.isFull] using full
  have emptied : l.toRing.moveRead ((l.r + 0) % l.mem.size : Nat) = l.toRing.reset := by
    rw [Nat.add_zero, Nat.mod_eq_of_lt l.r_lt]
    exact if_pos meet
  have wrote := l.toRing_writeTo_eq some' (Nat.zero_le _) err
  rw [emptied] at wrote
  exact wrote.trans (by cases err <;> rfl)

end Layout

namespace RingBuffer

variable {σ : Type} {source : MemSource σ} {rb rb' : RingBuffer} {s s' : σ} {queue : List UInt8}

/-- The buffer is in order and its content is the queue. -/
structure Holds (rb : RingBuffer) (queue : List UInt8) : Prop where
  sound : rb.Sound
  bytes : rb.bytes = some queue

end RingBuffer

theorem Layout.holds (l : Layout) : l.toRing.Holds l.content := ⟨Or.inl ⟨l, rfl⟩, l.toRing_bytes⟩

namespace RingBuffer

variable {σ : Type} {source : MemSource σ} {rb rb' : RingBuffer} {s s' : σ} {queue : List UInt8}
  {n : Int} {op : Op}

theorem Unallocated.holds (none' : rb.Unallocated) : rb.Holds [] :=
  ⟨Or.inr none', by rw [RingBuffer.bytes, if_pos none'.isEmpty]⟩

/-- A buffer that holds a queue is well formed with the queue as its content, or has no memory
and the queue is empty. -/
theorem Holds.cases (holds : rb.Holds queue) :
    (∃ l : Layout, rb = l.toRing ∧ queue = l.content) ∨ (rb.Unallocated ∧ queue = []) := by
  obtain ⟨⟨l, rfl⟩ | none', bytes⟩ := holds
  · exact Or.inl ⟨l, rfl, Option.some.inj (bytes.symm.trans l.toRing_bytes)⟩
  · exact Or.inr ⟨none', Option.some.inj (bytes.symm.trans none'.holds.bytes)⟩

theorem Holds.buffered (holds : rb.Holds queue) : rb.buffered = queue.length := by
  rcases holds.cases with ⟨l, rfl, rfl⟩ | ⟨none', rfl⟩
  · rw [l.toRing_buffered, l.content_length]
  · exact none'.buffered

theorem Holds.isEmpty (holds : rb.Holds queue) : rb.isEmpty = decide (queue = []) := by
  rcases holds.cases with ⟨l, rfl, rfl⟩ | ⟨none', rfl⟩
  · rw [l.toRing_isEmpty, Bool.eq_iff_iff, decide_eq_true_iff, l.content_eq_nil_iff]
  · rw [none'.isEmpty]
    rfl

/-- The operation does not need a memory that the buffer lacks. -/
def Op.Ready (rb : RingBuffer) : Op → Prop
  | next n => n ≤ 0 → rb.vm.isSome = true
  | kernelFill _ => rb.vm.isSome = true
  | _ => True

/-- The operation gives a buffer without a memory one. -/
def Op.allocates : Op → Bool
  | write buffer => !buffer.isEmpty
  | writeByte _ => true
  | _ => false

/-- The operation leaves a memory. -/
def Op.grows : Op → Bool
  | grow _ | growIfUnsufficientFreeSpace => true
  | op => op.allocates

theorem Op.grows_of_allocates (allocates : op.allocates = true) : op.grows = true := by
  cases op with
  | grow _ | growIfUnsufficientFreeSpace => rfl
  | _ => exact allocates

theorem Unallocated.reset (none' : rb.Unallocated) : rb.reset.Unallocated :=
  ⟨none'.vm, none'.size, rfl, rfl, rfl⟩

/-- Bytes that are written go to the memory that the first growth gives. -/
theorem Unallocated.growWhen (none' : rb.Unallocated) (mirrored : source.Mirrored) {n : Nat}
    (pos : 0 < n) (s : σ) : ∃ (l : Layout) (s₁ : σ), l.content = [] ∧ ∀ needed needed' : Bool,
      (needed = true ↔ (n : Int) > rb.available) →
      (needed' = true ↔ (n : Int) > l.toRing.available) → ∀ newCap',
        rb.growWhen source needed n s = l.toRing.growWhen source needed' newCap' s₁ := by
  obtain ⟨l, s₁, grown, content, large⟩ := none'.grow mirrored (Int.natCast_pos.mpr pos) s
  refine ⟨l, s₁, content, fun needed needed' need need' newCap' => ?_⟩
  have enough : ¬ (n : Int) > l.toRing.available := by
    rw [l.toRing_available, ← l.content_length, content, length_nil]
    omega
  have short : (n : Int) > rb.available := by
    rw [none'.available]
    omega
  rw [RingBuffer.growWhen, if_pos (need.mpr short), grown, RingBuffer.growWhen,
    if_neg (mt need'.mp enough)]

/-- An operation on a buffer without a memory is the operation on the empty queue. It gives the
buffer a memory or leaves it without one. -/
theorem Unallocated.exec_eq (none' : rb.Unallocated) (mirrored : source.Mirrored)
    (allowed : op.Allowed rb) (ready : op.Ready rb) (s : σ) : ∃ rb' s',
      op.exec source rb s = some ((op.spec []).1, rb', s') ∧ rb'.Holds (op.spec []).2 ∧
        if op.grows = true then rb'.vm.isSome = true else rb'.Unallocated := by
  have absent : ¬ rb.vm.isSome = true := by simp [none'.vm]
  -- the first write gives the buffer a memory and then is a write to an empty one
  have written : ∀ {l : Layout} {s₁ : σ}, l.content = [] → op.Allowed l.toRing →
      op.exec source rb s = op.exec source l.toRing s₁ → op.grows = true → ∃ rb' s',
        op.exec source rb s = some ((op.spec []).1, rb', s') ∧ rb'.Holds (op.spec []).2 ∧
          if op.grows = true then rb'.vm.isSome = true else rb'.Unallocated := by
    intro l s₁ content allowed' same grows
    obtain ⟨l', s', done, after⟩ := Op.exec_toRing mirrored op l s₁ allowed'
    rw [content] at done after
    refine ⟨l'.toRing, s', same.trans done, after ▸ l'.holds, ?_⟩
    rw [if_pos grows]
    rfl
  cases op with
  | write buffer =>
    by_cases nothing : buffer.length = 0
    · obtain rfl := length_eq_zero_iff.mp nothing
      exact ⟨rb, s, rfl, none'.holds, none'⟩
    · obtain ⟨l, s₁, content, same⟩ := none'.growWhen mirrored (Nat.pos_of_ne_zero nothing) s
      refine @written l s₁ content trivial ?_ ?_
      have cap : rb.size + buffer.length - rb.available = (buffer.length : Int) := by
        rw [none'.size, none'.available]
        omega
      · simp only [Op.exec, write, if_neg nothing, cap]
        rw [same _ _ decide_eq_true_iff decide_eq_true_iff]
      · cases buffer with
        | nil => exact absurd rfl nothing
        | cons => rfl
  | writeByte c =>
    obtain ⟨l, s₁, content, same⟩ := none'.growWhen mirrored Nat.one_pos s
    refine @written l s₁ content trivial ?_ rfl
    have cap : rb.size + 1 = ((1 : Nat) : Int) := by
      rw [none'.size]
      rfl
    simp only [Op.exec, writeByte, cap]
    rw [same (decide (rb.available < 1)) (decide (l.toRing.available < 1)) decide_eq_true_iff
      decide_eq_true_iff]
  | read buffer =>
    refine ⟨rb, s, ?_, ?_, none'⟩
    · simp only [Op.exec, read, readUpTo, if_pos none'.isEmpty, Op.spec, Int.natCast_eq_zero,
        length_eq_zero_iff]
      split_ifs <;> rfl
    · have same : (Op.spec [] (.read buffer)).2 = [] := by
        simp only [Op.spec]
        split_ifs <;> rfl
      rw [same]
      exact none'.holds
  | readByte =>
    refine ⟨rb, s, ?_, none'.holds, none'⟩
    simp only [Op.exec, readByte, if_pos none'.isEmpty]
    rfl
  | peek n =>
    refine ⟨rb, s, ?_, none'.holds, none'⟩
    simp only [Op.exec, peek, if_pos none'.isEmpty, Op.spec, take_nil, ite_self]
    rfl
  | bytes =>
    refine ⟨rb, s, ?_, none'.holds, none'⟩
    simp only [Op.exec, RingBuffer.bytes, if_pos none'.isEmpty]
    rfl
  | next n =>
    have pos : n > 0 := not_le.mp (mt ready absent)
    have beyond : n > ([] : List UInt8).length := pos
    refine ⟨rb, s, ?_, ?_, none'⟩
    · simp only [Op.exec, next, none'.buffered, if_pos pos, Op.spec, if_pos beyond]
      rfl
    · simp only [Op.spec, if_pos beyond]
      exact none'.holds
  | discard n =>
    have nonneg : 0 ≤ n := allowed
    have least : min n (([] : List UInt8).length : Int) = 0 := min_eq_right nonneg
    by_cases zero : n = 0
    · refine ⟨rb, s, ?_, ?_, none'⟩
      · simp only [Op.exec, discard, if_pos zero, Op.spec, least]
        rfl
      · simp only [Op.spec, drop_nil]
        exact none'.holds
    · refine ⟨rb.reset, s, ?_, ?_, none'.reset⟩
      · simp only [Op.exec, discard, if_neg zero, none'.buffered, if_neg (not_lt.mpr nonneg),
          Op.spec, least]
        rfl
      · simp only [Op.spec, drop_nil]
        exact none'.reset.holds
  | reset => exact ⟨rb.reset, s, rfl, none'.reset.holds, none'.reset⟩
  | advanceRead n =>
    obtain ⟨nonneg, small⟩ : 0 ≤ n ∧ n ≤ rb.buffered := allowed
    rw [none'.buffered] at small
    obtain rfl := le_antisymm small nonneg
    exact ⟨rb, s, rfl, none'.holds, none'⟩
  | kernelFill data => exact absurd ready absent
  | grow newCap =>
    have larger : rb.buffered < newCap := allowed
    rw [none'.buffered] at larger
    obtain ⟨l, s₁, grown, content, _⟩ := none'.grow mirrored larger s
    refine ⟨l.toRing, s₁, ?_, content ▸ l.holds, rfl⟩
    simp only [Op.exec, grown]
    rfl
  | growIfUnsufficientFreeSpace =>
    obtain ⟨l, s₁, grown, content, _⟩ := none'.growIfUnsufficientFreeSpace mirrored s
    refine ⟨l.toRing, s₁, ?_, content ▸ l.holds, rfl⟩
    simp only [Op.exec, grown]
    rfl

/-- An operation on a buffer that holds a queue is the operation on the queue. -/
theorem Holds.exec (holds : rb.Holds queue) (mirrored : source.Mirrored) (allowed : op.Allowed rb)
    (ready : op.Ready rb) (s : σ) : ∃ rb' s',
      op.exec source rb s = some ((op.spec queue).1, rb', s') ∧ rb'.Holds (op.spec queue).2 ∧
        (rb.vm.isSome = true ∨ op.allocates = true → rb'.vm.isSome = true) := by
  rcases holds.cases with ⟨l, rfl, rfl⟩ | ⟨none', rfl⟩
  · obtain ⟨l', s', done, after⟩ := Op.exec_toRing mirrored op l s allowed
    exact ⟨l'.toRing, s', done, after ▸ l'.holds, fun _ => rfl⟩
  · obtain ⟨rb', s', done, after, present⟩ := none'.exec_eq mirrored allowed ready s
    refine ⟨rb', s', done, after, fun some' => ?_⟩
    have allocates : op.allocates = true := some'.resolve_left (by simp [none'.vm])
    rwa [if_pos (Op.grows_of_allocates allocates)] at present

/-- A call on a ring buffer. -/
inductive Call where
  | basic (op : Op)
  | buffered
  | isEmpty
  /-- `WriteTo` with a writer that takes what it is offered with this result. -/
  | writeTo (written : Int) (err : Option Error)
  /-- `ReadFrom` with a reader of these chunks, a last one and its final error. -/
  | readFrom (chunks : List (List UInt8)) (last : List UInt8) (final : Error)

/-- What a call returns. -/
inductive Answer where
  | reply (reply : Reply)
  | flag (value : Bool)
  deriving DecidableEq, Repr

namespace Call

section Run

variable (source : MemSource σ)

def exec (rb : RingBuffer) (s : σ) : Call → Option (Answer × RingBuffer × σ)
  | basic op => do
    let (reply, rb, s) ← op.exec source rb s
    return (.reply reply, rb, s)
  | buffered => some (.reply { count := rb.buffered }, rb, s)
  | isEmpty => some (.flag rb.isEmpty, rb, s)
  | writeTo written err => do
    let ((offered, n, err), rb) ← rb.writeTo written err
    return (.reply { count := n, bytes := offered, err := err }, rb, s)
  | readFrom chunks last final => do
    let ((n, err), rb, s) ← rb.readFrom source chunks last final s
    return (.reply { count := n, err := err }, rb, s)

/-- The answers to successive calls, and the buffer after them. -/
def run : List Call → RingBuffer → σ → Option (List Answer × RingBuffer × σ)
  | [], rb, s => some ([], rb, s)
  | call :: calls, rb, s => do
    let (answer, rb, s) ← call.exec source rb s
    let (answers, rb, s) ← run calls rb s
    return (answer :: answers, rb, s)

/-- What a caller, its writer and its reader have to respect. A writer that takes nothing of a
full buffer and a reader that has nothing for an empty one are left out. -/
def Allowed (rb : RingBuffer) (s : σ) : Call → Prop
  | basic op => op.Allowed rb
  | buffered | isEmpty => True
  | writeTo written _ => 0 ≤ written ∧ written ≤ rb.buffered ∧ (rb.isFull = true → 0 < written)
  | readFrom chunks last _ =>
    Offered source chunks last rb s ∧ (rb.isEmpty = true → chunks.headD last ≠ [])

/-- Every call is allowed in the state it is made in. -/
def Admissible : List Call → RingBuffer → σ → Prop
  | [], _, _ => True
  | call :: calls, rb, s => call.Allowed source rb s ∧
      ∀ answer rb' s', call.exec source rb s = some (answer, rb', s') → Admissible calls rb' s'

end Run

/-- The call does not need a memory that the buffer lacks. -/
def Ready (rb : RingBuffer) : Call → Prop
  | basic op => op.Ready rb
  | _ => True

/-- The call on the queue. -/
def spec (queue : List UInt8) : Call → Answer × List UInt8
  | basic op => (.reply (op.spec queue).1, (op.spec queue).2)
  | buffered => (.reply { count := queue.length }, queue)
  | isEmpty => (.flag (decide (queue = [])), queue)
  | writeTo written err =>
    if queue = [] then (.reply { err := some .isEmpty }, [])
    else
      (.reply { count := written, bytes := queue
                err := err.or (if written < queue.length then some .shortWrite else none) },
        queue.drop written.toNat)
  | readFrom chunks last final =>
    (.reply { count := (chunks.flatten ++ last).length, err := readError final },
      queue ++ (chunks.flatten ++ last))

def specRun (queue : List UInt8) : List Call → List Answer × List UInt8
  | [] => ([], queue)
  | call :: calls =>
    let (answer, queue) := call.spec queue
    let (answers, queue) := specRun queue calls
    (answer :: answers, queue)

end Call

/-- A call on a buffer that holds a queue is the call on the queue. -/
theorem Holds.call (holds : rb.Holds queue) (mirrored : source.Mirrored) {call : Call}
    (allowed : call.Allowed source rb s) (ready : call.Ready rb) : ∃ rb' s',
      call.exec source rb s = some ((call.spec queue).1, rb', s') ∧
        rb'.Holds (call.spec queue).2 := by
  cases call with
  | basic op =>
    obtain ⟨rb', s', done, after, _⟩ := holds.exec mirrored allowed ready s
    refine ⟨rb', s', ?_, after⟩
    simp only [Call.exec, done]
    rfl
  | buffered =>
    refine ⟨rb, s, ?_, holds⟩
    simp only [Call.exec, Call.spec, holds.buffered]
  | isEmpty =>
    refine ⟨rb, s, ?_, holds⟩
    simp only [Call.exec, Call.spec, holds.isEmpty]
  | writeTo written err =>
    obtain ⟨low, high, moves⟩ := allowed
    by_cases empty : queue = []
    · have flag : rb.isEmpty = true := by
        rw [holds.isEmpty]
        exact decide_eq_true empty
      refine ⟨rb, s, ?_, ?_⟩
      · simp only [Call.exec, RingBuffer.writeTo, if_pos flag, Call.spec, if_pos empty]
        rfl
      · simp only [Call.spec, if_pos empty]
        exact empty ▸ holds
    · rcases holds.cases with ⟨l, rfl, rfl⟩ | ⟨_, none'⟩
      · obtain ⟨m, rfl⟩ := Int.eq_ofNat_of_zero_le low
        rw [l.toRing_buffered] at high
        have full : l.isEmpty = false := by
          rw [← Bool.not_eq_true]
          exact mt l.content_eq_nil_iff.mpr empty
        obtain ⟨l', done, content⟩ := l.toRing_writeTo full (Int.ofNat_le.mp high)
          (fun meet => Int.ofNat_lt.mp (moves meet)) err
        refine ⟨l'.toRing, s, ?_, ?_⟩
        · simp only [Call.exec, done, Call.spec, if_neg empty, l.content_length, Int.ofNat_lt]
          rfl
        · simp only [Call.spec, if_neg empty, Int.toNat_natCast, ← content]
          exact l'.holds
      · exact absurd none' empty
  | readFrom chunks last final =>
    obtain ⟨offered, delivers⟩ := allowed
    obtain ⟨g, s₁, grown, before, _, flag⟩ := holds.sound.growth mirrored s
    rw [← flag] at delivers
    obtain ⟨l, s', read, content⟩ := Layout.readFrom_of_growth mirrored final grown offered delivers
    cases holds.bytes.symm.trans before
    refine ⟨l.toRing, s', ?_, ?_⟩
    · simp only [Call.exec, read]
      rfl
    · change l.toRing.Holds (g.content ++ (chunks.flatten ++ last))
      rw [← content]
      exact l.holds

variable {answer : Answer} {calls : List Call}

/-- A call that returns had the memory it needs. -/
theorem Holds.ready (holds : rb.Holds queue) {call : Call}
    (done : call.exec source rb s = some (answer, rb', s')) : call.Ready rb := by
  cases call with
  | basic op =>
    rcases holds.cases with ⟨l, rfl, rfl⟩ | ⟨none', rfl⟩
    · cases op with
      | next n => exact fun _ => rfl
      | kernelFill data => exact rfl
      | _ => trivial
    · cases op with
      | next n =>
        intro nonpos
        simp only [Call.exec, Op.exec, next, none'.buffered, if_neg (not_lt.mpr nonpos), slice,
          none'.vm, bind_none, bind_eq_bind] at done
        cases done
      | kernelFill data =>
        simp only [Call.exec, Op.exec, writeAddress, addressOf, none'.vm, bind_none,
          bind_eq_bind] at done
        cases done
      | _ => trivial
  | _ => trivial

/-- Calls that are allowed and return give the answers of the queue. -/
theorem Holds.run (holds : rb.Holds queue) (mirrored : source.Mirrored) {answers : List Answer}
    (admissible : Call.Admissible source calls rb s)
    (ran : Call.run source calls rb s = some (answers, rb', s')) :
    answers = (Call.specRun queue calls).1 ∧ rb'.Holds (Call.specRun queue calls).2 := by
  induction calls generalizing rb s queue answers with
  | nil =>
    cases ran
    exact ⟨rfl, holds⟩
  | cons call calls ih =>
    obtain ⟨⟨answer, rb₁, s₁⟩, first, rest⟩ := bind_eq_some_iff.mp ran
    obtain ⟨⟨others, rb₂, s₂⟩, later, last⟩ := bind_eq_some_iff.mp rest
    cases last
    obtain ⟨rb₃, s₃, same, after⟩ := holds.call mirrored admissible.1 (holds.ready first)
    cases first.symm.trans same
    obtain ⟨rfl, held⟩ := ih after (admissible.2 _ _ _ first) later
    exact ⟨rfl, held⟩

theorem newMagicBuffer_holds (mirrored : source.Mirrored) {size : Int} (nonneg : 0 ≤ size)
    (s : σ) : (newMagicBuffer source size s).1.Holds [] := by
  by_cases zero : size = 0
  · have none' : (newMagicBuffer source size s).1.Unallocated := by
      rw [newMagicBuffer, if_pos zero]
      exact ⟨rfl, rfl, rfl, rfl, rfl⟩
    exact none'.holds
  · obtain ⟨l, same, content⟩ :=
      newMagicBuffer_toRing mirrored (lt_of_le_of_ne nonneg (Ne.symm zero)) s
    rw [same, ← content]
    exact l.holds

/-! ## The calls of a reader and a writer -/

namespace Call

/-- A call of the reader's and the writer's methods, or a question. -/
def plain : Call → Bool
  | basic (.write _) | basic (.writeByte _) | basic (.read _) | basic .readByte | basic (.peek _)
  | basic (.next _) | basic .bytes | buffered | isEmpty => true
  | basic (.discard n) => 0 ≤ n
  | _ => false

/-- `Next` of all that is buffered. -/
def takesAll : Call → Bool
  | basic (.next n) => n ≤ 0
  | _ => false

def allocates : Call → Bool
  | basic op => op.allocates
  | _ => false

/-- All that is buffered is asked for only when there is a memory. -/
def primed : Bool → List Call → Bool
  | _, [] => true
  | allocated, call :: calls =>
    (!call.takesAll || allocated) && primed (allocated || call.allocates) calls

variable {call : Call} {calls : List Call}

theorem allowed_of_plain (plain : call.plain = true) : call.Allowed source rb s := by
  cases call with
  | basic op =>
    cases op with
    | discard n => exact show 0 ≤ n from of_decide_eq_true plain
    | write _ | writeByte _ | read _ | readByte | peek _ | bytes | next _ => trivial
    | _ => cases plain
  | buffered | isEmpty => trivial
  | writeTo _ _ | readFrom _ _ _ => cases plain

theorem ready_of_plain (plain : call.plain = true)
    (present : call.takesAll = true → rb.vm.isSome = true) : call.Ready rb := by
  cases call with
  | basic op =>
    cases op with
    | next n => exact fun nonpos => present (decide_eq_true nonpos)
    | kernelFill _ => cases plain
    | _ => trivial
  | _ => trivial

theorem primed_true (calls : List Call) : primed true calls = true := by
  induction calls with
  | nil => rfl
  | cons call calls ih => rw [primed, Bool.or_true, Bool.true_and, Bool.true_or, ih]

end Call

/-- Such calls go through and give the answers of the queue. -/
theorem Holds.run_of_plain (holds : rb.Holds queue) (mirrored : source.Mirrored)
    (plain : ∀ call ∈ calls, call.plain = true) (primed : Call.primed rb.vm.isSome calls = true)
    (s : σ) :
    ∃ rb' s', Call.run source calls rb s = some ((Call.specRun queue calls).1, rb', s') := by
  induction calls generalizing rb s queue with
  | nil => exact ⟨rb, s, rfl⟩
  | cons call calls ih =>
    have mine := plain call mem_cons_self
    rw [Call.primed, Bool.and_eq_true_iff] at primed
    have ready : call.Ready rb := by
      refine Call.ready_of_plain mine fun all => ?_
      simpa [all] using primed.1
    obtain ⟨rb₁, s₁, first, after⟩ := holds.call (s := s) mirrored
      (Call.allowed_of_plain mine) ready
    have present : rb.vm.isSome = true ∨ call.allocates = true → rb₁.vm.isSome = true := by
      intro some'
      cases call with
      | basic op =>
        have allowed : Call.Allowed source rb s (.basic op) := Call.allowed_of_plain mine
        obtain ⟨rb₂, s₂, same, _, allocated⟩ := holds.exec mirrored allowed ready s
        simp only [Call.exec, same] at first
        cases first
        exact allocated some'
      | buffered | isEmpty =>
        simp only [Call.exec, Option.some.injEq, Prod.mk.injEq] at first
        rw [← first.2.1]
        exact some'.resolve_right Bool.false_ne_true
      | writeTo _ _ | readFrom _ _ _ => cases mine
    have later : Call.primed rb₁.vm.isSome calls = true := by
      by_cases some' : rb.vm.isSome = true ∨ call.allocates = true
      · rw [present some']
        exact Call.primed_true calls
      · rw [not_or, Bool.not_eq_true, Bool.not_eq_true] at some'
        rw [some'.1, some'.2] at primed
        cases allocated : rb₁.vm.isSome with
        | false => exact primed.2
        | true => exact Call.primed_true calls
    obtain ⟨rb', s', rest⟩ :=
      ih after (fun call member => plain call (mem_cons_of_mem _ member)) later s₁
    refine ⟨rb', s', ?_⟩
    simp only [Call.run, first, rest, bind_eq_bind, bind_some]
    rfl

/-- Without a memory `Next` of all that is buffered panics. -/
theorem Unallocated.exec_eq_none (none' : rb.Unallocated) {call : Call}
    (all : call.takesAll = true) (s : σ) : call.exec source rb s = none := by
  cases call with
  | basic op =>
    cases op with
    | next n =>
      have nonpos : n ≤ 0 := of_decide_eq_true all
      have within : ¬ n > rb.buffered := by
        rw [none'.buffered]
        exact not_lt.mpr nonpos
      have missing : rb.slice rb.r (rb.r + rb.buffered) = none := by
        rw [slice, none'.vm]
        rfl
      simp only [Call.exec, Op.exec, next, if_neg within, if_pos nonpos, missing]
      rfl
    | _ => cases all
  | _ => cases all

/-- Only a write gives the buffer a memory. -/
theorem Unallocated.kept (none' : rb.Unallocated) (mirrored : source.Mirrored) {call : Call}
    (plain : call.plain = true) (absent : call.allocates = false)
    (done : call.exec source rb s = some (answer, rb', s')) : rb'.Unallocated := by
  by_cases all : call.takesAll = true
  · rw [none'.exec_eq_none all] at done
    cases done
  cases call with
  | basic op =>
    have allowed : Call.Allowed source rb s (.basic op) := Call.allowed_of_plain plain
    have ready : Call.Ready rb (.basic op) := Call.ready_of_plain plain fun yes => absurd yes all
    obtain ⟨rb₁, s₁, ran, _, left⟩ := none'.exec_eq mirrored allowed ready s
    rw [Call.exec, ran] at done
    cases done
    have grows : op.grows = false := by
      cases op with
      | grow _ | growIfUnsufficientFreeSpace => cases plain
      | _ => exact absent
    rw [grows] at left
    exact left
  | buffered | isEmpty =>
    cases done
    exact none'
  | _ => cases plain

/-- A run that asks for all that is buffered before there is a memory panics. -/
theorem Unallocated.run_eq_none (none' : rb.Unallocated) (mirrored : source.Mirrored)
    (plain : ∀ call ∈ calls, call.plain = true) (unprimed : Call.primed false calls = false)
    (s : σ) : Call.run source calls rb s = none := by
  induction calls generalizing rb s with
  | nil => cases unprimed
  | cons call calls ih =>
    by_cases all : call.takesAll = true
    · rw [Call.run, none'.exec_eq_none all]
      rfl
    · rw [Bool.not_eq_true] at all
      rw [Call.primed, all, Bool.not_false, Bool.true_or, Bool.true_and, Bool.false_or]
        at unprimed
      have absent : call.allocates = false := by
        rw [← Bool.not_eq_true]
        intro present
        rw [present, Call.primed_true] at unprimed
        cases unprimed
      rw [absent] at unprimed
      cases first : call.exec source rb s with
      | none =>
        rw [Call.run, first]
        rfl
      | some result =>
        obtain ⟨answer, rb₁, s₁⟩ := result
        have after := none'.kept mirrored (plain call mem_cons_self) absent first
        have rest := ih after (fun call member => plain call (mem_cons_of_mem _ member))
          unprimed s₁
        simp only [Call.run, first, rest, bind_eq_bind, bind_some, bind_none]

/-! ## Reachable buffers -/

/-- A buffer that allowed calls lead to from a new one. -/
def Reached (source : MemSource σ) (rb : RingBuffer) (s : σ) : Prop :=
  ∃ (size : Int) (start : σ) (calls : List Call) (answers : List Answer), 0 ≤ size ∧
    Call.Admissible source calls (newMagicBuffer source size start).1
      (newMagicBuffer source size start).2 ∧
    Call.run source calls (newMagicBuffer source size start).1
      (newMagicBuffer source size start).2 = some (answers, rb, s)

theorem Reached.holds (reached : Reached source rb s) (mirrored : source.Mirrored) :
    ∃ queue, rb.Holds queue := by
  obtain ⟨size, start, calls, answers, nonneg, admissible, ran⟩ := reached
  obtain ⟨_, held⟩ := (newMagicBuffer_holds mirrored nonneg start).run mirrored admissible ran
  exact ⟨_, held⟩

/-- `WriteTo` offers the content and keeps what the writer did not take, except if the writer
takes nothing of a full buffer. -/
theorem writeTo_eq_iff_moving (mirrored : source.Mirrored) (reached : Reached source rb s)
    (some' : rb.isEmpty = false) {m : Int} (low : 0 ≤ m) (high : m ≤ rb.buffered)
    (err : Option Error) :
    (∃ content rb', rb.bytes = some content ∧
      rb.writeTo m err = some ((content, m,
        err.or (if m < content.length then some .shortWrite else none)), rb') ∧
      rb'.bytes = some (content.drop m.toNat)) ↔
    (rb.isFull = true → 0 < m) := by
  obtain ⟨queue, holds⟩ := reached.holds mirrored
  have nonempty : queue ≠ [] := by
    intro empty
    rw [holds.isEmpty, decide_eq_true empty] at some'
    cases some'
  constructor
  · rintro ⟨content, rb', bytes, wrote, after⟩ full
    by_contra still
    obtain rfl : m = 0 := le_antisymm (not_lt.mp still) low
    rcases holds.cases with ⟨l, rfl, rfl⟩ | ⟨none', rfl⟩
    · rw [l.toRing_writeTo_zero full, Option.some.injEq, Prod.mk.injEq, Prod.mk.injEq] at wrote
      obtain ⟨⟨rfl, _⟩, rfl⟩ := wrote
      exact nonempty (Option.some.inj after).symm
    · exact nonempty rfl
  · intro moves
    have allowed : Call.Allowed source rb s (.writeTo m err) := ⟨low, high, moves⟩
    obtain ⟨rb₁, s', done, after⟩ := holds.call mirrored allowed trivial
    obtain ⟨⟨⟨offered, n, result⟩, rb'⟩, wrote, same⟩ := bind_eq_some_iff.mp done
    simp only [Call.spec, if_neg nonempty] at same after
    cases same
    exact ⟨queue, rb₁, holds.bytes, wrote, after.bytes⟩

/-- A writer takes two of three bytes. -/
theorem writeTo_eq_iff_moving_short : ∃ rb s content rb', Reached freshSource rb s ∧
    rb.bytes = some content ∧
    rb.writeTo 2 none = some ((content, 2,
      Option.or none (if 2 < (content.length : Int) then some .shortWrite else none)), rb') ∧
    rb'.bytes = some (content.drop 2) := by
  have mirrored : freshSource.Mirrored := fun size s pos => ⟨_, _, rfl, Int.toNat_of_nonneg pos.le⟩
  have reached : Reached freshSource _ _ :=
    ⟨1, 0, [.basic (.write [1, 2, 3])], _, by decide, ⟨trivial, fun _ _ _ _ => trivial⟩, rfl⟩
  obtain ⟨content, rb', bytes, wrote, after⟩ := (writeTo_eq_iff_moving mirrored reached rfl
    (show (0 : Int) ≤ 2 by decide) (by decide) none).mpr fun _ => by decide
  exact ⟨_, _, content, rb', reached, bytes, wrote, after⟩

/-- A writer fails to take anything of a full buffer, which then is empty. -/
theorem writeTo_not_eq : ∃ rb s offered rb', Reached freshSource rb s ∧ rb.isEmpty = false ∧
    rb.buffered = 4096 ∧ rb.writeTo 0 none = some ((offered, 0, none), rb') ∧
    rb'.bytes = some [] := by
  have seen : ((Call.run freshSource [.basic (.write (List.replicate 4096 7))]
      (newMagicBuffer freshSource 1 0).1 (newMagicBuffer freshSource 1 0).2).bind fun filled =>
        (filled.2.1.writeTo 0 none).map fun wrote => decide (filled.2.1.isEmpty = false ∧
          filled.2.1.buffered = 4096 ∧ wrote.1.2 = (0, none) ∧ wrote.2.bytes = some [])) =
      some true := by decide +kernel
  obtain ⟨⟨answers, rb, s⟩, ran, seen⟩ := bind_eq_some_iff.mp seen
  obtain ⟨⟨⟨offered, n, err⟩, rb'⟩, wrote, seen⟩ := map_eq_some_iff.mp seen
  obtain ⟨some', full, result, gone⟩ := of_decide_eq_true seen
  cases result
  have reached : Reached freshSource rb s := ⟨1, 0, [.basic (.write (List.replicate 4096 7))],
    answers, by decide, ⟨trivial, fun _ _ _ _ => trivial⟩, ran⟩
  exact ⟨rb, s, offered, rb', reached, some', full, wrote, gone⟩

/-- The indices lie in the memory, and the flag tells whether anything is buffered. -/
structure Indexed (rb : RingBuffer) : Prop where
  r : 0 ≤ rb.r ∧ (0 < rb.size → rb.r < rb.size)
  w : 0 ≤ rb.w ∧ (0 < rb.size → rb.w < rb.size)
  flag : rb.isEmpty = true ↔ rb.buffered = 0

theorem Holds.indexed (holds : rb.Holds queue) : rb.Indexed := by
  have flag : rb.isEmpty = true ↔ rb.buffered = 0 := by
    rw [holds.isEmpty, holds.buffered, decide_eq_true_iff, Int.natCast_eq_zero, length_eq_zero_iff]
  rcases holds.cases with ⟨l, rfl, rfl⟩ | ⟨none', rfl⟩
  · have r := l.r_lt
    have w := l.w_lt
    refine ⟨⟨Int.natCast_nonneg _, fun _ => ?_⟩, ⟨Int.natCast_nonneg _, fun _ => ?_⟩, flag⟩
    · exact Int.ofNat_lt.mpr r
    · exact Int.ofNat_lt.mpr w
  · have size : ¬ 0 < rb.size := by
      rw [none'.size]
      exact lt_irrefl 0
    exact ⟨⟨none'.r.ge, fun pos => absurd pos size⟩, ⟨none'.w.ge, fun pos => absurd pos size⟩, flag⟩

/-- How many bytes `Discard` has to remove: a negative number stands for all of them. -/
def discarded (queue : List UInt8) (n : Int) : Int :=
  if n < 0 then queue.length else min n queue.length

theorem discarded_of_nonneg (nonneg : 0 ≤ n) :
    discarded queue n = min n queue.length := if_neg (not_lt.mpr nonneg)

theorem drop_discarded (nonneg : 0 ≤ n) :
    queue.drop (discarded queue n).toNat = queue.drop n.toNat := by
  rw [discarded_of_nonneg nonneg]
  rcases le_total n queue.length with small | large
  · rw [min_eq_left small]
  · rw [min_eq_right large, Int.toNat_natCast, drop_length, drop_eq_nil_of_le (by omega)]

/-- A negative number comes back as the count. -/
theorem discard_count_of_neg {count : Int} (neg : n < 0) (nonneg : 0 ≤ rb.buffered)
    (done : rb.discard n = some (count, rb')) : count = n := by
  rw [discard, if_neg neg.ne, if_pos (neg.trans_le nonneg)] at done
  obtain ⟨r, _, same⟩ := bind_eq_some_iff.mp done
  cases same
  rfl

/-- `Discard` removes the bytes it has to and the calls that follow find what is left, if and
only if the number is not negative. -/
theorem discard_eq_iff_nonneg (mirrored : source.Mirrored) (reached : Reached source rb s)
    (n : Int) :
    (∃ content rb', rb.bytes = some content ∧ rb.buffered = content.length ∧
      rb.discard n = some (discarded content n, rb') ∧
      rb'.bytes = some (content.drop (discarded content n).toNat) ∧ rb'.Indexed ∧
      ∀ calls : List Call, (∀ call ∈ calls, call.plain = true) →
        Call.primed rb'.vm.isSome calls = true → ∃ rb₁ s₁, Call.run source calls rb' s =
          some ((Call.specRun (content.drop (discarded content n).toNat) calls).1, rb₁, s₁)) ↔
    0 ≤ n := by
  constructor
  · rintro ⟨content, rb', _, length, done, _⟩
    by_contra neg
    rw [not_le] at neg
    have count := discard_count_of_neg neg (by rw [length]; exact Int.natCast_nonneg _) done
    rw [discarded, if_pos neg] at count
    exact absurd (count ▸ Int.natCast_nonneg content.length) (not_le.mpr neg)
  · intro nonneg
    obtain ⟨queue, holds⟩ := reached.holds mirrored
    obtain ⟨rb', s', done, after, _⟩ :=
      holds.exec mirrored (show Op.Allowed rb (.discard n) from nonneg) trivial s
    obtain ⟨⟨count, rb₁⟩, dropped, same⟩ := bind_eq_some_iff.mp done
    cases same
    refine ⟨queue, rb', holds.bytes, holds.buffered, ?_, ?_, after.indexed, ?_⟩
    · rw [discarded_of_nonneg nonneg]
      exact dropped
    · rw [drop_discarded nonneg]
      exact after.bytes
    · rw [drop_discarded nonneg]
      exact fun calls plain primed => after.run_of_plain mirrored plain primed s

/-- Two of three bytes are discarded, and then all are asked for. -/
theorem discard_eq_iff_nonneg_two : ∃ rb s content rb', Reached freshSource rb s ∧
    rb.bytes = some content ∧ rb.buffered = content.length ∧
    rb.discard 2 = some (discarded content 2, rb') ∧
    rb'.bytes = some (content.drop (discarded content 2).toNat) ∧
    rb'.Indexed ∧ ∀ calls : List Call, (∀ call ∈ calls, call.plain = true) →
      Call.primed rb'.vm.isSome calls = true → ∃ rb₁ s₁, Call.run freshSource calls rb' s =
        some ((Call.specRun (content.drop (discarded content 2).toNat) calls).1, rb₁, s₁) := by
  have mirrored : freshSource.Mirrored := fun size s pos => ⟨_, _, rfl, Int.toNat_of_nonneg pos.le⟩
  have reached : Reached freshSource _ _ :=
    ⟨1, 0, [.basic (.write [1, 2, 3])], _, by decide, ⟨trivial, fun _ _ _ _ => trivial⟩, rfl⟩
  obtain ⟨content, rb', dropped⟩ := (discard_eq_iff_nonneg mirrored reached 2).mpr (by decide)
  exact ⟨_, _, content, rb', reached, dropped⟩

/-- `Discard(-1)` moves the read index before the memory, and the next `Peek` panics. -/
theorem discard_not_eq : ∃ rb s rb', Reached freshSource rb s ∧ rb.buffered = 3 ∧
    rb.discard (-1) = some (-1, rb') ∧ rb'.r = -1 ∧ rb'.buffered = 4 ∧ rb'.peek 1 = none := by
  have reached : Reached freshSource _ _ :=
    ⟨1, 0, [.basic (.write [1, 2, 3])], _, by decide, ⟨trivial, fun _ _ _ _ => trivial⟩, rfl⟩
  exact ⟨_, _, _, reached, rfl, rfl, rfl, rfl, rfl⟩

/-- A buffer made with size 0 gives the same answers as one of any size, if and only if all that
is buffered is not asked for before anything was written. -/
theorem run_eq_iff_primed (mirrored : source.Mirrored) {size : Int} (pos : 0 < size) (s s' : σ)
    {calls : List Call} (plain : ∀ call ∈ calls, call.plain = true) :
    (∃ answers rb₁ s₁ rb₂ s₂,
      Call.run source calls (newMagicBuffer source 0 s).1 (newMagicBuffer source 0 s).2 =
        some (answers, rb₁, s₁) ∧
      Call.run source calls (newMagicBuffer source size s').1 (newMagicBuffer source size s').2 =
        some (answers, rb₂, s₂)) ↔
    Call.primed false calls = true := by
  constructor
  · rintro ⟨answers, rb₁, s₁, _, _, ran, _⟩
    by_contra unprimed
    rw [Bool.not_eq_true] at unprimed
    have none' : (newMagicBuffer source 0 s).1.Unallocated := ⟨rfl, rfl, rfl, rfl, rfl⟩
    rw [none'.run_eq_none mirrored plain unprimed] at ran
    cases ran
  · intro primed
    have zero : (newMagicBuffer source 0 s).1.vm.isSome = false := rfl
    have sized : (newMagicBuffer source size s').1.vm.isSome = true := by
      obtain ⟨l, same, _⟩ := newMagicBuffer_toRing mirrored pos s'
      rw [same]
      rfl
    obtain ⟨rb₁, s₁, ran₁⟩ := (newMagicBuffer_holds mirrored le_rfl s).run_of_plain mirrored plain
      (by rw [zero]; exact primed) (newMagicBuffer source 0 s).2
    obtain ⟨rb₂, s₂, ran₂⟩ := (newMagicBuffer_holds mirrored pos.le s').run_of_plain mirrored plain
      (by rw [sized]; exact Call.primed_true calls) (newMagicBuffer source size s').2
    exact ⟨_, rb₁, s₁, rb₂, s₂, ran₁, ran₂⟩

/-- Calls with and without effect on an empty buffer, a write, and all that is buffered. -/
theorem run_eq_iff_primed_written : ∃ answers rb₁ s₁ rb₂ s₂,
    Call.run freshSource [.basic (.peek 0), .basic (.next 1), .basic (.discard 5), .isEmpty,
        .basic (.write [1, 2]), .buffered, .basic (.next 0)]
      (newMagicBuffer freshSource 0 0).1 (newMagicBuffer freshSource 0 0).2 =
        some (answers, rb₁, s₁) ∧
    Call.run freshSource [.basic (.peek 0), .basic (.next 1), .basic (.discard 5), .isEmpty,
        .basic (.write [1, 2]), .buffered, .basic (.next 0)]
      (newMagicBuffer freshSource 7 0).1 (newMagicBuffer freshSource 7 0).2 =
        some (answers, rb₂, s₂) := by
  have mirrored : freshSource.Mirrored := fun size s pos => ⟨_, _, rfl, Int.toNat_of_nonneg pos.le⟩
  exact (run_eq_iff_primed mirrored (show (0 : Int) < 7 by decide) 0 0 (by decide)).mpr (by decide)

/-- `Next(0)` on a new buffer panics if it was made with size 0, and otherwise returns nothing. -/
theorem run_not_eq : ∃ rb s,
    Call.run freshSource [.basic (.next 0)] (newMagicBuffer freshSource 0 0).1
      (newMagicBuffer freshSource 0 0).2 = none ∧
    Call.run freshSource [.basic (.next 0)] (newMagicBuffer freshSource 1 0).1
      (newMagicBuffer freshSource 1 0).2 = some ([.reply {}], rb, s) :=
  ⟨_, _, rfl, rfl⟩

end RingBuffer

end Gain
