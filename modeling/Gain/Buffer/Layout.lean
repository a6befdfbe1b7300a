import Gain.Buffer.RingBuffer

/-! # Well-formed ring buffers

A `Layout` is a ring buffer that carries its representation invariant: the
memory is mirrored at the ring's size, both indices lie below it, and they
coincide when the empty flag is set. The read index and the number of buffered
bytes then determine a window of the memory, the buffer's content. Every
operation of the ring buffer on such a buffer is a move of the read index, a
reset, or a store behind the content.
-/

namespace Gain

open Mirror

structure Layout where
  mem : VirtualMem
  r : Nat
  w : Nat
  isEmpty : Bool
  pos : 0 < mem.size
  r_lt : r < mem.size
  w_lt : w < mem.size
  empty : isEmpty = true → r = w

namespace Layout

/-- The ring buffer with this layout. -/
def toRing (l : Layout) : RingBuffer := ⟨some l.mem, l.mem.size, l.r, l.w, l.isEmpty⟩

@[simp] theorem toRing_vm (l : Layout) : l.toRing.vm = some l.mem := rfl

@[simp] theorem toRing_size (l : Layout) : l.toRing.size = l.mem.size := rfl

@[simp] theorem toRing_r (l : Layout) : l.toRing.r = l.r := rfl

@[simp] theorem toRing_w (l : Layout) : l.toRing.w = l.w := rfl

@[simp] theorem toRing_isEmpty (l : Layout) : l.toRing.isEmpty = l.isEmpty := rfl

/-- The number of buffered bytes. -/
def count (l : Layout) : Nat :=
  if l.r = l.w then if l.isEmpty then 0 else l.mem.size
  else if l.r < l.w then l.w - l.r else l.mem.size - l.r + l.w

/-- The buffered bytes. -/
def content (l : Layout) : List UInt8 := window l.mem.cells l.mem.size l.r l.count

theorem wrap_eq (a size : Nat) (lt : a < 2 * size) :
    a % size = if a < size then a else a - size := by
  split
  · exact Nat.mod_eq_of_lt ‹_›
  · rw [Nat.mod_eq_sub_mod (by omega), Nat.mod_eq_of_lt (by omega)]

variable (l : Layout)

@[simp] theorem content_length : l.content.length = l.count := window_length ..

theorem count_le : l.count ≤ l.mem.size := by
  have r := l.r_lt
  have w := l.w_lt
  unfold count
  split_ifs <;> omega

theorem count_of_isEmpty (empty : l.isEmpty = true) : l.count = 0 := by
  simp only [count, l.empty empty, empty, ↓reduceIte]

theorem count_pos (full : l.isEmpty = false) : 0 < l.count := by
  have pos := l.pos
  have r := l.r_lt
  unfold count
  simp only [full, Bool.false_eq_true, ↓reduceIte]
  split_ifs <;> omega

theorem content_eq_nil_iff : l.content = [] ↔ l.isEmpty = true := by
  rw [← List.length_eq_zero_iff, content_length]
  constructor
  · intro none
    by_contra full
    have := l.count_pos (by simpa using full)
    omega
  · exact l.count_of_isEmpty

@[simp] theorem toRing_buffered : l.toRing.buffered = l.count := by
  have r := l.r_lt
  have w := l.w_lt
  cases flag : l.isEmpty <;>
    simp only [RingBuffer.buffered, toRing, count, flag, Int.natCast_inj, gt_iff_lt, Int.ofNat_lt,
      Bool.false_eq_true, ↓reduceIte] <;>
    split_ifs <;> omega

@[simp] theorem toRing_available : l.toRing.available = l.mem.size - l.count := by
  have r := l.r_lt
  have w := l.w_lt
  cases flag : l.isEmpty <;>
    simp only [RingBuffer.available, toRing, count, flag, Int.natCast_inj, Int.ofNat_lt,
      Bool.false_eq_true, ↓reduceIte] <;>
    split_ifs <;> omega

variable {n : Nat}

/-- Any window that starts below the size and is no longer than it is a slice
of the mirrored memory. -/
theorem toRing_slice (l : Layout) {start : Nat} (lt : start ≤ l.mem.size) (le : n ≤ l.mem.size) :
    l.toRing.slice start (start + n) = some (window l.mem.cells l.mem.size start n) := by
  simp only [RingBuffer.slice, toRing, Option.bind_some, VirtualMem.slice?]
  rw [if_pos (by omega)]
  congr 2
  omega

theorem toRing_slice_content (l : Layout) (le : n ≤ l.count) :
    l.toRing.slice l.r (l.r + n) = some (l.content.take n) := by
  rw [l.toRing_slice l.r_lt.le (le.trans l.count_le), content, window_take _ _ _ le]

theorem goMod_natCast (a : Nat) {size : Nat} (pos : 0 < size) :
    goMod (a : Int) (size : Int) = some ((a % size : Nat) : Int) := by
  rw [goMod, if_neg (by omega), Int.ofNat_tmod]

/-- The write index is one past the content. -/
theorem w_eq (l : Layout) : l.w = (l.r + l.count) % l.mem.size := by
  have r := l.r_lt
  have w := l.w_lt
  have pos := l.pos
  have le := l.count_le
  rw [wrap_eq _ _ (by omega)]
  unfold count
  cases flag : l.isEmpty <;> simp only [Bool.false_eq_true, ↓reduceIte] <;> split_ifs <;> omega

/-- In a buffer that is not empty the indices determine the count. -/
theorem count_unique (l : Layout) (full : l.isEmpty = false) (some : 0 < n) (le : n ≤ l.mem.size)
    (same : l.w = (l.r + n) % l.mem.size) : l.count = n := by
  have r := l.r_lt
  have pos := l.count_pos full
  have le' := l.count_le
  have indices := l.w_eq
  rw [wrap_eq _ _ (by omega)] at same indices
  rw [same] at indices
  split_ifs at indices <;> omega

/-- The empty buffer over a memory. -/
def clear (l : Layout) : Layout :=
  { l with r := 0, w := 0, isEmpty := true, r_lt := l.pos, w_lt := l.pos, empty := fun _ => rfl }

@[simp] theorem clear_content (l : Layout) : l.clear.content = [] := (content_eq_nil_iff _).mpr rfl

/-- The buffer after its first `n` bytes, fewer than all, are passed over. -/
def skip (l : Layout) (n : Nat) (lt : n < l.count) : Layout :=
  { l with
    r := (l.r + n) % l.mem.size
    r_lt := Nat.mod_lt _ l.pos
    empty := by
      intro empty
      rw [l.count_of_isEmpty empty] at lt
      exact absurd lt (Nat.not_lt_zero n) }

section Skip

variable (l : Layout) {n : Nat} (lt : n < l.count)

theorem skip_isEmpty : (l.skip n lt).isEmpty = false := by
  cases flag : l.isEmpty with
  | false => exact flag
  | true =>
    rw [l.count_of_isEmpty flag] at lt
    exact absurd lt (Nat.not_lt_zero n)

theorem skip_count : (l.skip n lt).count = l.count - n := by
  have le := l.count_le
  refine (l.skip n lt).count_unique (l.skip_isEmpty lt) (by omega) ?_ ?_
  · change l.count - n ≤ l.mem.size
    omega
  · change l.w = ((l.r + n) % l.mem.size + (l.count - n)) % l.mem.size
    rw [Nat.mod_add_mod, Nat.add_assoc, Nat.add_sub_cancel' lt.le]
    exact l.w_eq

theorem skip_content : (l.skip n lt).content = l.content.drop n := by
  unfold content
  rw [skip_count, window_drop _ _ _ lt.le]
  exact window_mod ..

/-- Passing over some but not all bytes does not move the read index onto the
write index. -/
theorem skip_r_ne_w (some : 0 < n) : (l.skip n lt).r ≠ (l.skip n lt).w := by
  intro same
  have left := l.skip_count lt
  have le := l.count_le
  have whole : (l.skip n lt).count = l.mem.size := by
    unfold count
    simp only [same, l.skip_isEmpty lt, Bool.false_eq_true, ↓reduceIte]
    rfl
  omega

end Skip

/-- The buffer over a memory in which `data` lies behind the content. -/
def store (l : Layout) (data : List UInt8) : Layout :=
  { l with mem := { l.mem with cells := fill l.mem.cells l.mem.size l.w data } }

/-- The buffer that counts the `n` bytes behind the content as buffered. -/
def extend (l : Layout) (n : Nat) : Layout :=
  { l with
    w := (l.w + n) % l.mem.size
    isEmpty := false
    w_lt := Nat.mod_lt _ l.pos
    empty := fun contra => absurd contra (by decide) }

/-- The `n` bytes behind the content. -/
def spare (l : Layout) (n : Nat) : List UInt8 := window l.mem.cells l.mem.size l.w n

section Push

variable (l : Layout)

@[simp] theorem store_count (data : List UInt8) : (l.store data).count = l.count := rfl

variable {data : List UInt8} (fits : l.count + data.length ≤ l.mem.size)

include fits in
theorem store_content : (l.store data).content = l.content := by
  unfold content
  rw [store_count]
  have behind : fill l.mem.cells l.mem.size l.w data =
      fill l.mem.cells l.mem.size (l.r + l.count) data := by
    conv_lhs => rw [l.w_eq]
    exact fill_mod ..
  simp only [store, behind]
  exact window_fill_of_disjoint _ _ _ _ _ _ le_rfl (by omega)

include fits in
theorem store_spare : (l.store data).spare data.length = data :=
  window_fill_same _ _ _ _ (by omega)

variable {n : Nat} (some : 0 < n) (room : l.count + n ≤ l.mem.size)

include some room in
theorem extend_count : (l.extend n).count = l.count + n := by
  refine (l.extend n).count_unique rfl (by omega) ?_ ?_
  · change l.count + n ≤ l.mem.size
    omega
  · change (l.w + n) % l.mem.size = (l.r + (l.count + n)) % l.mem.size
    rw [l.w_eq, Nat.mod_add_mod, Nat.add_assoc]

include some room in
theorem extend_content : (l.extend n).content = l.content ++ l.spare n := by
  unfold content spare
  rw [l.extend_count some room, window_add]
  congr 1
  rw [l.w_eq]
  exact (window_mod ..).symm

end Push

/-- The buffer whose content lies at the front of a memory. -/
def atFront (m : VirtualMem) (data : List UInt8) (lt : data.length < m.size) : Layout where
  mem := { m with cells := fill m.cells m.size 0 data }
  r := 0
  w := data.length
  isEmpty := data.isEmpty
  pos := Nat.lt_of_le_of_lt (Nat.zero_le _) lt
  r_lt := Nat.lt_of_le_of_lt (Nat.zero_le _) lt
  w_lt := lt
  empty := fun none => by rw [List.isEmpty_iff.mp none]; rfl

theorem atFront_content (m : VirtualMem) (data : List UInt8) (lt : data.length < m.size) :
    (atFront m data lt).content = data := by
  have size : (atFront m data lt).count = data.length := by
    cases data with
    | nil => rfl
    | cons b data => simp [count, atFront]
  unfold content
  rw [size]
  exact window_fill_same _ _ _ _ lt.le

end Layout

end Gain
