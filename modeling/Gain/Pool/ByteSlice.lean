import Mathlib.Tactic.SplitIfs
import Gain.Foundation.Run
import Gain.Pool.VirtualMem

/-! # The pool of byte slices

`byteslice.Pool` keeps bare pointers in 32 classes. A request is answered with a
slice header made up from such a pointer, whose capacity is that of the class, so
nothing but the arithmetic of the classes keeps it inside the array the pointer
points into. The callers hold slices, take slices of them and put back any of
them, any number of times.
-/

namespace Gain.ByteSlice

open Function List Option

/-- A place in an array. -/
structure Pointer where
  array : Nat
  offset : Nat

structure Slice where
  data : Pointer
  len : Nat
  cap : Nat

/-- `math.MaxInt32` -/
def maxInt32 : Nat := 2 ^ 31 - 1

/-- `index`, of a size that is not 0. -/
def index (n : Nat) : Nat := VirtualMem.len32 (n - 1)

/-- The class of a slice that is put back; `idx--` on a `uint32`. -/
def putIndex (size : Nat) : Nat :=
  let idx := index size
  if size ≠ 2 ^ idx then (idx + (2 ^ 32 - 1)) % 2 ^ 32 else idx

structure Pool where
  pools : Fin 32 → SyncPool Pointer

/-- `p.pools[idx]`, undefined out of range. -/
def class? (idx : Nat) : Option (Fin 32) := if lt : idx < 32 then some ⟨idx, lt⟩ else none

/-- `make([]byte, n)` in a heap given by the lengths of its arrays. -/
def make (rooms : List Nat) (n : Nat) : Slice × List Nat :=
  (⟨⟨rooms.length, 0⟩, n, n⟩, rooms ++ [n])

/-- `buf[lo:hi:max]`, undefined out of range. -/
def Slice.slice? (buf : Slice) (lo hi max : Nat) : Option Slice :=
  if lo ≤ hi ∧ hi ≤ max ∧ max ≤ buf.cap then
    some ⟨⟨buf.data.array, buf.data.offset + lo⟩, hi - lo, max - lo⟩
  else none

namespace Pool

/-- `Get`; no slice is nil. -/
def get (p : Pool) (size : Int) (rooms : List Nat) : Option (Option Slice × Pool × List Nat) :=
  if size ≤ 0 then some (none, p, rooms)
  else if size > maxInt32 then
    let (buf, rooms) := make rooms size.toNat
    some (some buf, p, rooms)
  else do
    let idx := index size.toNat
    let cls ← class? idx
    let (ptr, pool) := (p.pools cls).get
    let p := { p with pools := update p.pools cls pool }
    match ptr with
    | none =>
      let (buf, rooms) := make rooms (2 ^ idx)
      let buf ← buf.slice? 0 size.toNat buf.cap
      return (some buf, p, rooms)
    | some ptr => return (some ⟨ptr, size.toNat, 2 ^ idx⟩, p, rooms)

def put (p : Pool) (buf : Slice) : Option Pool :=
  let size := buf.cap
  if size = 0 ∨ size > maxInt32 then some p
  else do
    let cls ← class? (putIndex size)
    return { p with pools := update p.pools cls ((p.pools cls).put buf.data) }

end Pool

variable {n : Nat} {buf : Slice}

/-- The arithmetic of the classes. -/
theorem le_two_pow_index : n ≤ 2 ^ index n := by
  unfold index VirtualMem.len32
  split_ifs with one
  · omega
  · have := @Nat.lt_log2_self (n - 1)
    omega

theorem two_pow_pred_index_le (more : 1 < n) : 2 ^ (index n - 1) ≤ n := by
  have nonzero : n - 1 ≠ 0 := by omega
  have below := Nat.log2_self_le nonzero
  rw [index, VirtualMem.len32, if_neg nonzero, Nat.add_sub_cancel]
  omega

theorem index_lt (small : n ≤ maxInt32) : index n < 32 := by
  unfold index VirtualMem.len32
  split_ifs with one
  · decide
  · have below : (n - 1).log2 < 31 := (Nat.log2_lt one).mpr (by unfold maxInt32 at small; omega)
    omega

/-- A slice is put into a class whose slices are not longer. -/
theorem putIndex_spec (pos : 0 < n) (small : n ≤ maxInt32) :
    putIndex n < 32 ∧ 2 ^ putIndex n ≤ n := by
  have lt := index_lt small
  unfold putIndex
  dsimp only
  split_ifs with exact'
  · have more : 1 < n := by
      refine lt_of_le_of_ne pos fun one => exact' ?_
      rw [← one]
      rfl
    have nonzero : index n ≠ 0 := by
      intro zero
      have := @le_two_pow_index n
      rw [zero] at this
      omega
    have down : (index n + (2 ^ 32 - 1)) % 2 ^ 32 = index n - 1 := by omega
    rw [down]
    exact ⟨by omega, two_pow_pred_index_le more⟩
  · exact ⟨lt, (not_not.mp exact').ge⟩

/-- There are that many bytes from the pointer on. -/
def Room (rooms : List Nat) (p : Pointer) (n : Nat) : Prop :=
  ∃ room, rooms[p.array]? = some room ∧ p.offset + n ≤ room

namespace Room

variable {rooms : List Nat} {p : Pointer} {n : Nat}

theorem append (room : Room rooms p n) (more : List Nat) : Room (rooms ++ more) p n := by
  obtain ⟨length, found, fits⟩ := room
  obtain ⟨lt, _⟩ := List.getElem?_eq_some_iff.mp found
  refine ⟨length, ?_, fits⟩
  rw [List.getElem?_append_left lt]
  exact found

theorem make (rooms : List Nat) (n : Nat) :
    Room (make rooms n).2 (make rooms n).1.data (make rooms n).1.cap :=
  ⟨n, List.getElem?_concat_length, (Nat.zero_add n).le⟩

theorem slice {buf' : Slice} {lo hi max : Nat} (room : Room rooms buf.data buf.cap)
    (taken : buf.slice? lo hi max = some buf') : Room rooms buf'.data buf'.cap := by
  unfold Slice.slice? at taken
  split_ifs at taken with inside
  cases taken
  obtain ⟨length, found, fits⟩ := room
  exact ⟨length, found, by dsimp only; omega⟩

end Room

/-- A pool, the arrays there are and the slices its callers hold. -/
structure Arena where
  pool : Pool
  rooms : List Nat
  held : List Slice

inductive Label where
  /-- A caller makes a slice of its own. -/
  | make (n : Nat)
  | get (size : Int)
  /-- A caller takes a slice of one it holds. -/
  | slice (i lo hi max : Nat)
  | put (i : Nat)

namespace Arena

variable {t t' : Arena}

def step (t : Arena) : Label → Option Arena
  | .make n =>
    let (buf, rooms) := make t.rooms n
    some { t with rooms := rooms, held := buf :: t.held }
  | .get size => do
    let (buf, pool, rooms) ← t.pool.get size t.rooms
    return ⟨pool, rooms, buf.toList ++ t.held⟩
  | .slice i lo hi max => do
    let buf ← t.held[i]?
    let buf ← buf.slice? lo hi max
    return { t with held := buf :: t.held }
  | .put i => do
    let buf ← t.held[i]?
    let pool ← t.pool.put buf
    return { t with pool := pool }

/-- `NewByteSlicePool`, with pools that answer as they like. -/
def start (choice : Fin 32 → Nat → Option Nat) : Arena :=
  ⟨⟨fun cls => .empty (choice cls)⟩, [], []⟩

/-- Every slice held, and every slice that can be made up, lies in its array. -/
structure Bounded (t : Arena) : Prop where
  held : ∀ buf ∈ t.held, Room t.rooms buf.data buf.cap
  pooled : ∀ cls, ∀ p ∈ (t.pool.pools cls).items, Room t.rooms p (2 ^ cls.val)

theorem start_bounded (choice : Fin 32 → Nat → Option Nat) : (start choice).Bounded :=
  ⟨forall_mem_nil _, fun _ => forall_mem_nil _⟩

/-- What `Get` of a positive size returns. -/
theorem Bounded.get (bounded : t.Bounded) {size : Int} (pos : 0 < size) :
    ∃ buf pool rooms, t.pool.get size t.rooms = some (some buf, pool, rooms) ∧
      buf.len = size ∧ buf.len ≤ buf.cap ∧ Room rooms buf.data buf.cap ∧
      (∃ more, rooms = t.rooms ++ more) ∧
      ∀ cls, ∀ p ∈ (pool.pools cls).items, p ∈ (t.pool.pools cls).items := by
  have exact' : ((size.toNat : Nat) : Int) = size := Int.toNat_of_nonneg pos.le
  unfold Pool.get
  rw [if_neg (not_le.mpr pos)]
  by_cases large : size > maxInt32
  · rw [if_pos large]
    exact ⟨_, _, _, rfl, exact', le_rfl, Room.make t.rooms size.toNat, ⟨_, rfl⟩,
      fun _ _ member => member⟩
  rw [if_neg large]
  have small : size.toNat ≤ maxInt32 := by omega
  have fits : size.toNat ≤ 2 ^ index size.toNat := le_two_pow_index
  have cls : class? (index size.toNat) = some ⟨_, index_lt small⟩ := dif_pos (index_lt small)
  dsimp only
  rw [cls]
  -- the class loses at most the pointer that is handed out
  have others : ∀ {ptr pool}, (t.pool.pools ⟨_, index_lt small⟩).get = (ptr, pool) →
      ∀ cls, ∀ p ∈ (update t.pool.pools ⟨_, index_lt small⟩ pool cls).items,
        p ∈ (t.pool.pools cls).items := by
    intro ptr pool got cls p member
    by_cases same : cls = ⟨_, index_lt small⟩
    · subst same
      rw [update_self] at member
      cases ptr with
      | none => rwa [SyncPool.get_none got] at member
      | some ptr => exact (SyncPool.get_some got).2 p member
    · rwa [update_of_ne same] at member
  rcases got : (t.pool.pools ⟨_, index_lt small⟩).get with ⟨ptr, pool⟩
  simp only [bind_eq_bind, bind_some, got]
  cases ptr with
  | none =>
    have sliced : (make t.rooms (2 ^ index size.toNat)).1.slice? 0 size.toNat
        (make t.rooms (2 ^ index size.toNat)).1.cap =
        some ⟨⟨t.rooms.length, 0⟩, size.toNat, 2 ^ index size.toNat⟩ :=
      if_pos ⟨Nat.zero_le _, fits, le_rfl⟩
    simp only [sliced, bind_some]
    exact ⟨_, _, _, rfl, exact', fits, Room.make t.rooms (2 ^ index size.toNat), ⟨_, rfl⟩,
      others got⟩
  | some ptr =>
    exact ⟨_, _, _, rfl, exact', fits, bounded.pooled _ ptr (SyncPool.get_some got).1,
      ⟨[], (append_nil _).symm⟩, others got⟩

/-- `Put` of a slice that lies in its array. -/
theorem Bounded.put (bounded : t.Bounded) (room : Room t.rooms buf.data buf.cap) :
    ∃ pool, t.pool.put buf = some pool ∧ ({ t with pool := pool } : Arena).Bounded := by
  unfold Pool.put
  dsimp only
  split_ifs with outside
  · exact ⟨_, rfl, bounded⟩
  · obtain ⟨lt, less⟩ := putIndex_spec (n := buf.cap) (by omega) (by omega)
    have cls : class? (putIndex buf.cap) = some ⟨_, lt⟩ := dif_pos lt
    rw [cls]
    refine ⟨_, rfl, bounded.held, fun c p member => ?_⟩
    by_cases same : c = ⟨_, lt⟩
    · subst same
      change p ∈ (update t.pool.pools ⟨_, lt⟩ _ _).items at member
      rw [update_self] at member
      rcases SyncPool.mem_put.mp member with rfl | old
      · obtain ⟨length, found, fits⟩ := room
        exact ⟨length, found, le_trans (Nat.add_le_add_left less _) fits⟩
      · exact bounded.pooled _ p old
    · change p ∈ (update t.pool.pools _ _ c).items at member
      rw [update_of_ne same] at member
      exact bounded.pooled c p member

/-- Every call keeps the slices within their bounds. -/
theorem Bounded.step (bounded : t.Bounded) {label : Label} (done : t.step label = some t') :
    t'.Bounded := by
  cases label with
  | make n =>
    cases done
    refine ⟨fun buf member => ?_, fun cls p member => (bounded.pooled cls p member).append _⟩
    rcases mem_cons.mp member with rfl | old
    · exact Room.make t.rooms n
    · exact (bounded.held buf old).append _
  | get size =>
    by_cases pos : 0 < size
    · obtain ⟨buf, pool, rooms, got, _, _, room, ⟨more, rfl⟩, fewer⟩ := bounded.get pos
      simp only [Arena.step, got] at done
      cases done
      refine ⟨fun buf' member => ?_, fun cls p member => ?_⟩
      · rcases mem_cons.mp member with rfl | old
        · exact room
        · exact (bounded.held buf' old).append _
      · exact (bounded.pooled cls p (fewer cls p member)).append _
    · simp only [Arena.step, Pool.get, if_pos (not_lt.mp pos)] at done
      cases done
      exact bounded
  | slice i lo hi max =>
    obtain ⟨buf, found, done⟩ := bind_eq_some_iff.mp done
    obtain ⟨buf', taken, done⟩ := bind_eq_some_iff.mp done
    cases done
    refine ⟨fun buf₁ member => ?_, bounded.pooled⟩
    rcases mem_cons.mp member with rfl | old
    · exact (bounded.held buf (mem_of_getElem? found)).slice taken
    · exact bounded.held buf₁ old
  | put i =>
    obtain ⟨buf, found, done⟩ := bind_eq_some_iff.mp done
    obtain ⟨pool, same, after⟩ := bounded.put (bounded.held buf (mem_of_getElem? found))
    rw [same] at done
    cases done
    exact after

theorem run_bounded {choice : Fin 32 → Nat → Option Nat} {ls : List Label}
    (ran : run step ls (start choice) = some t) : t.Bounded :=
  run_preserves Bounded (fun _ _ _ done bounded => bounded.step done) ran (start_bounded choice)

/-- After any history of a pool `Get` returns a slice of the requested length whose capacity lies
in its array, or nil when nothing is requested; it and `Put` of any slice find their class. -/
theorem run_get_inside {choice : Fin 32 → Nat → Option Nat} {ls : List Label}
    (ran : run step ls (start choice) = some t) :
    (∀ size : Int, size ≤ 0 → t.pool.get size t.rooms = some (none, t.pool, t.rooms)) ∧
    (∀ size : Int, 0 < size → ∃ buf pool rooms,
      t.pool.get size t.rooms = some (some buf, pool, rooms) ∧ buf.len = size ∧
      buf.len ≤ buf.cap ∧ Room rooms buf.data buf.cap ∧
      (size ≤ maxInt32 → index size.toNat < 32)) ∧
    ∀ buf ∈ t.held, Room t.rooms buf.data buf.cap ∧ (∃ pool, t.pool.put buf = some pool) ∧
      (0 < buf.cap → buf.cap ≤ maxInt32 → putIndex buf.cap < 32) := by
  have bounded := run_bounded ran
  refine ⟨fun size none' => if_pos none', fun size pos => ?_, fun buf member => ?_⟩
  · obtain ⟨buf, pool, rooms, got, len, within, room, _⟩ := bounded.get pos
    exact ⟨buf, pool, rooms, got, len, within, room, fun small => index_lt (by omega)⟩
  · obtain ⟨pool, done, _⟩ := bounded.put (bounded.held buf member)
    exact ⟨bounded.held buf member, ⟨pool, done⟩, fun pos small => (putIndex_spec pos small).1⟩

/-- A slice of 5 bytes is put back from its second byte on, and its class is asked twice. -/
def recycled : List Label :=
  [.get 5, .slice 0 1 5 8, .put 0, .get 3, .make 7, .put 0, .get 4]

theorem run_get_inside_recycled : ∃ t, run step recycled (start fun _ _ => some 0) = some t ∧
    t.held.map (fun buf => (buf.data.array, buf.data.offset, buf.len, buf.cap)) =
      [(1, 0, 4, 4), (1, 0, 7, 7), (0, 1, 3, 4), (0, 1, 4, 7), (0, 0, 5, 8)] ∧
    ∀ buf ∈ t.held, Room t.rooms buf.data buf.cap := by
  obtain ⟨t, ran, held⟩ : ∃ t, run step recycled (start fun _ _ => some 0) = some t ∧
      t.held.map (fun buf => (buf.data.array, buf.data.offset, buf.len, buf.cap)) =
        [(1, 0, 4, 4), (1, 0, 7, 7), (0, 1, 3, 4), (0, 1, 4, 7), (0, 0, 5, 8)] :=
    exists_run_from (by decide +kernel)
  exact ⟨t, ran, held, fun buf member => ((run_get_inside ran).2.2 buf member).1⟩

end Arena

end Gain.ByteSlice
