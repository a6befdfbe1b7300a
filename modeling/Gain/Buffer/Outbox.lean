import Gain.Buffer.Operations

/-! # Buffers that are only written

A buffer taken from the pool has both indices at the front. As long as it is
only written, its read index stays there, whatever the sizes of the memories
behind it are, and after a write of some bytes it does not count as empty.
-/

namespace Gain

open Option

namespace RingBuffer

/-- Both indices are at the front and nothing is buffered. -/
structure Idle (rb : RingBuffer) : Prop where
  r : rb.r = 0
  w : rb.w = 0
  isEmpty : rb.isEmpty = true

theorem newMagicBuffer_idle {σ : Type} (source : MemSource σ) (size : Int) (s : σ) :
    (newMagicBuffer source size s).1.Idle := by
  unfold newMagicBuffer
  split_ifs <;> exact ⟨rfl, rfl, rfl⟩

/-- Nothing has been read from the buffer. -/
structure Outbox (rb : RingBuffer) : Prop where
  r : rb.r = 0
  front : (rb.isEmpty = true ∧ rb.w = 0) ∨ (rb.isEmpty = false ∧ 0 ≤ rb.w ∧ rb.w < rb.size)

theorem Idle.outbox {rb : RingBuffer} (idle : rb.Idle) : rb.Outbox :=
  ⟨idle.r, Or.inl ⟨idle.isEmpty, idle.w⟩⟩

namespace Outbox

variable {rb rb' : RingBuffer}

variable (outbox : rb.Outbox)
include outbox

theorem buffered_nonneg : 0 ≤ rb.buffered := by
  obtain ⟨r, ⟨empty, w⟩ | ⟨full, low, high⟩⟩ := outbox
  · simp only [buffered, r, w, empty, if_true, le_refl]
  · simp only [buffered, r, full, Bool.false_eq_true, if_false]
    split_ifs <;> omega

theorem buffered_pos (full : rb.isEmpty = false) : 0 < rb.buffered := by
  obtain ⟨r, ⟨empty, _⟩ | ⟨_, low, high⟩⟩ := outbox
  · rw [full] at empty
    cases empty
  · simp only [buffered, r, full, Bool.false_eq_true, if_false]
    split_ifs <;> omega

theorem buffered_of_isEmpty (empty : rb.isEmpty = true) : rb.buffered = 0 := by
  obtain ⟨r, ⟨_, w⟩ | ⟨full, _⟩⟩ := outbox
  · simp only [buffered, r, w, empty, if_true]
  · rw [empty] at full
    cases full

theorem available_eq : rb.available = rb.size - rb.buffered := by
  obtain ⟨r, ⟨empty, w⟩ | ⟨full, low, high⟩⟩ := outbox
  · simp only [available, buffered, r, w, empty, if_true, sub_zero]
  · simp only [available, buffered, r, full, Bool.false_eq_true, if_false]
    split_ifs <;> omega

variable {σ : Type} {source : MemSource σ} {s s' : σ} {newCap : Int}

/-- Growing moves what is buffered to the front. -/
theorem grow (more : rb.buffered < newCap) (grown : rb.grow source newCap s = some (rb', s')) :
    rb'.Outbox ∧ rb'.isEmpty = rb.isEmpty ∧ newCap ≤ rb'.size ∧ rb'.buffered = rb.buffered := by
  have rounded := le_adjustBufferSize source.pageSize_pos newCap
  have nonneg := outbox.buffered_nonneg
  unfold RingBuffer.grow at grown
  obtain ⟨m, _, rest⟩ := bind_eq_some_iff.mp grown
  obtain ⟨⟨reply, rb₁⟩, took, rest⟩ := bind_eq_some_iff.mp rest
  obtain ⟨m', _, last⟩ := bind_eq_some_iff.mp rest
  cases last
  cases empty : rb.isEmpty with
  | true =>
    have none' := outbox.buffered_of_isEmpty empty
    have same : rb₁.isEmpty = true := by
      unfold readUpTo at took
      split_ifs at took
      · cases took
        exact empty
      · cases took
        exact empty
    simp only [none', same, gt_iff_lt, lt_irrefl, if_false]
    refine ⟨⟨rfl, Or.inl ⟨rfl, rfl⟩⟩, trivial, rounded, ?_⟩
    simp only [buffered, if_true]
  | false =>
    have some' := outbox.buffered_pos empty
    simp only [gt_iff_lt, some', if_true]
    refine ⟨⟨rfl, Or.inr ⟨rfl, nonneg, ?_⟩⟩, trivial, rounded, ?_⟩
    · exact more.trans_le rounded
    · generalize rb.buffered = n at *
      simp only [buffered, gt_iff_lt, some', if_true, sub_zero]
      rw [if_neg (by omega)]

theorem growWhen {needed : Bool} (more : rb.buffered < newCap)
    (grown : rb.growWhen source needed newCap s = some (rb', s')) :
    rb'.Outbox ∧ rb'.isEmpty = rb.isEmpty ∧ rb'.buffered = rb.buffered ∧
      (needed = true → newCap ≤ rb'.size) ∧ (needed = false → rb' = rb) := by
  unfold RingBuffer.growWhen at grown
  cases needed with
  | true =>
    obtain ⟨outbox', empty, room, same⟩ := outbox.grow more grown
    exact ⟨outbox', empty, same, fun _ => room, fun contra => nomatch contra⟩
  | false =>
    cases grown
    exact ⟨outbox, rfl, rfl, (fun contra => nomatch contra), fun _ => rfl⟩

/-- Bytes are stored and counted as buffered. -/
theorem store (pos : 0 < rb.size) {data : List UInt8} (stored : rb.store data = some rb') {w : Int}
    (moved : goMod (rb'.w + data.length) rb'.size = some w) :
    Outbox { rb' with w := w, isEmpty := false } := by
  obtain ⟨m, _, rest⟩ := bind_eq_some_iff.mp stored
  obtain ⟨m', _, rfl⟩ := map_eq_some_iff.mp rest
  have low : 0 ≤ rb.w := by
    rcases outbox.front with ⟨_, w⟩ | ⟨_, low, _⟩
    · exact w.ge
    · exact low
  unfold goMod at moved
  rw [if_neg pos.ne'] at moved
  cases moved
  refine ⟨outbox.r, Or.inr ⟨rfl, ?_, ?_⟩⟩
  · exact Int.tmod_nonneg _ (Int.add_nonneg low (Int.natCast_nonneg _))
  · exact Int.tmod_lt_of_pos _ pos

/-- A write of some bytes leaves the buffer with some. -/
theorem write {buffer : List UInt8} {n : Int}
    (wrote : rb.write source buffer s = some (n, rb', s')) :
    rb'.Outbox ∧ (rb.isEmpty = false ∨ buffer ≠ [] → rb'.isEmpty = false) := by
  unfold RingBuffer.write at wrote
  by_cases none' : buffer.length = 0
  · rw [if_pos none'] at wrote
    cases wrote
    refine ⟨outbox, fun some' => some'.resolve_right fun ne => ne ?_⟩
    exact List.length_eq_zero_iff.mp none'
  · rw [if_neg none'] at wrote
    obtain ⟨⟨rb₁, s₁⟩, grown, rest⟩ := bind_eq_some_iff.mp wrote
    obtain ⟨rb₂, stored, rest⟩ := bind_eq_some_iff.mp rest
    obtain ⟨w, moved, last⟩ := bind_eq_some_iff.mp rest
    cases last
    have free := outbox.available_eq
    have nonneg := outbox.buffered_nonneg
    obtain ⟨outbox₁, _, _, room, kept⟩ := outbox.growWhen (by omega) grown
    have pos : 0 < rb₁.size := by
      by_cases needed : (buffer.length : Int) > rb.available
      · have := room (decide_eq_true needed)
        omega
      · rw [kept (decide_eq_false needed)]
        omega
    exact ⟨outbox₁.store pos stored moved, fun _ => rfl⟩

theorem growIfUnsufficientFreeSpace
    (grown : rb.growIfUnsufficientFreeSpace source s = some (rb', s')) :
    rb'.Outbox ∧ 0 < rb'.size ∧ rb'.isEmpty = rb.isEmpty := by
  have free := outbox.available_eq
  have nonneg := outbox.buffered_nonneg
  have least : (0 : Int) < minRead := by decide
  obtain ⟨outbox', empty, _, room, kept⟩ := outbox.growWhen (by omega) grown
  refine ⟨outbox', ?_, empty⟩
  by_cases needed : rb.available < minRead
  · have := room (decide_eq_true needed)
    omega
  · rw [kept (decide_eq_false needed)]
    omega

theorem filled {data : List UInt8} (filled : Filled source data rb s rb' s') :
    rb'.Outbox ∧ rb'.isEmpty = false := by
  obtain ⟨grown, _, stored, moved⟩ := filled
  obtain ⟨outbox₁, pos, _⟩ := outbox.growIfUnsufficientFreeSpace grown
  exact ⟨outbox₁.store pos stored moved, rfl⟩

/-- After reading from a reader the buffer does not count as empty, even if the reader had
nothing. -/
theorem readFrom {chunks : List (List UInt8)} {last : List UInt8}
    {final : Error} {reply : Int × Option Error}
    (read : rb.readFrom source chunks last final s = some (reply, rb', s')) :
    rb'.Outbox ∧ rb'.isEmpty = false := by
  have reads := readFrom_reads read
  clear read
  induction reads with
  | last filled => exact outbox.filled filled
  | chunk filled _ ih => exact ih (outbox.filled filled).1

end Outbox

end RingBuffer

end Gain
