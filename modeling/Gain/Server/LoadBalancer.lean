import Mathlib.Data.Int.Order.Basic
import Mathlib.Logic.Function.Basic
import Mathlib.Tactic.SplitIfs
import Gain.Foundation.Crc32
import Gain.Foundation.Run
import Gain.Net.Address

/-! # Load balancers

The acceptor asks a load balancer for the consumer of each connection. Consumers are
registered once, in an order that every balancer goes by: the first of the least busy,
the next in turn, or the one at the hash of the peer's address.
-/

namespace Gain

open Function List Option

/-- `genericLoadBalancer` -/
structure GenericLoadBalancer (α : Type) where
  workers : List α
  size : Nat
  /-- Every registered consumer is counted. -/
  size_eq : size = workers.length

namespace GenericLoadBalancer

variable {α : Type}

def new : GenericLoadBalancer α := ⟨[], 0, rfl⟩

/-- `register`; the index is the one the consumer is given. -/
def register (b : GenericLoadBalancer α) (worker : α) : Nat × GenericLoadBalancer α :=
  (b.size, ⟨b.workers ++ [worker], b.size + 1, by rw [b.size_eq, length_append]; rfl⟩)

/-- The balancer with which the consumers have been registered, one after the other. -/
def registered (workers : List α) : GenericLoadBalancer α :=
  workers.foldl (fun b worker => (b.register worker).2) new

theorem registered_workers (workers : List α) : (registered workers).workers = workers := by
  have append : ∀ b : GenericLoadBalancer α,
      (workers.foldl (fun b worker => (b.register worker).2) b).workers = b.workers ++ workers := by
    induction workers with
    | nil => exact fun b => (append_nil b.workers).symm
    | cons worker workers ih =>
      intro b
      rw [foldl_cons, ih, register, append_assoc, singleton_append]
  exact append new

theorem registered_size (workers : List α) : (registered workers).size = workers.length := by
  rw [(registered workers).size_eq, registered_workers]

end GenericLoadBalancer

/-! ## The least busy -/

namespace LeastConnectionsLoadBalancer

variable {α : Type} {addr : TCPAddr}

/-- The loop of `next` over the workers after the first. -/
def loop (activeConnections : α → Int) : (workers : List α) → (worker : α) → (minN : Int) → α
  | [], worker, _ => worker
  | v :: workers, worker, minN =>
    let n := activeConnections v
    if n < minN then loop activeConnections workers v n
    else loop activeConnections workers worker minN

/-- `next`, undefined without a worker. -/
def next (b : GenericLoadBalancer α) (activeConnections : α → Int) (_ : TCPAddr) : Option α :=
  match b.workers with
  | [] => none
  | worker :: workers => some (loop activeConnections workers worker (activeConnections worker))

/-- The worker is the first of those with the least load. -/
def FirstLeast (load : α → Int) (workers : List α) (worker : α) : Prop :=
  ∃ i : Nat, workers[i]? = some worker ∧ (∀ v ∈ workers, load worker ≤ load v) ∧
    ∀ j < i, ∀ v, workers[j]? = some v → load worker < load v

/-- The loop finds the first one of least load. -/
theorem loop_firstLeast (load : α → Int) (workers : List α) (worker : α) :
    FirstLeast load (worker :: workers) (loop load workers worker (load worker)) := by
  induction workers generalizing worker with
  | nil =>
    refine ⟨0, rfl, fun v member => ?_, fun j lt => absurd lt (Nat.not_lt_zero j)⟩
    cases mem_singleton.mp member
    exact le_rfl
  | cons v workers ih =>
    unfold loop
    by_cases fewer : load v < load worker
    · -- the loop goes on as if it had started at `v`
      rw [if_pos fewer]
      obtain ⟨i, found, least, first⟩ := ih v
      refine ⟨i + 1, found, fun u member => ?_, fun j lt u at' => ?_⟩
      · rcases mem_cons.mp member with rfl | later
        · exact le_trans (least v mem_cons_self) (le_of_lt fewer)
        · exact least u later
      · cases j with
        | zero =>
          cases at'
          exact lt_of_le_of_lt (least v mem_cons_self) fewer
        | succ j => exact first j (Nat.lt_of_succ_lt_succ lt) u at'
    · rw [if_neg fewer]
      obtain ⟨i, found, least, first⟩ := ih worker
      have notLess := not_lt.mp fewer
      have below : load (loop load workers worker (load worker)) ≤ load v :=
        le_trans (least worker mem_cons_self) notLess
      have least' : ∀ u ∈ worker :: v :: workers,
          load (loop load workers worker (load worker)) ≤ load u := by
        intro u member
        rcases mem_cons.mp member with rfl | later
        · exact least _ mem_cons_self
        · rcases mem_cons.mp later with rfl | later
          · exact below
          · exact least u (mem_cons_of_mem _ later)
      cases i with
      | zero => exact ⟨0, found, least', fun j lt => absurd lt (Nat.not_lt_zero j)⟩
      | succ i =>
        refine ⟨i + 2, found, least', fun j lt u at' => ?_⟩
        have head := first 0 (Nat.succ_pos i) worker rfl
        rcases j with _ | _ | j
        · cases at'
          exact head
        · cases at'
          exact lt_of_lt_of_le head notLess
        · exact first (j + 1) (by omega) u at'

theorem next_eq_none_iff {b : GenericLoadBalancer α} {load : α → Int} :
    next b load addr = none ↔ b.workers = [] := by
  unfold next
  cases b.workers with
  | nil => exact iff_of_true rfl rfl
  | cons worker workers => exact iff_of_false (some_ne_none _) (cons_ne_nil _ _)

theorem next_firstLeast {b : GenericLoadBalancer α} {load : α → Int} {worker : α}
    (chosen : next b load addr = some worker) : FirstLeast load b.workers worker := by
  unfold next at chosen
  cases same : b.workers with
  | nil =>
    rw [same] at chosen
    cases chosen
  | cons first workers =>
    rw [same] at chosen
    cases chosen
    exact loop_firstLeast load workers first

section
variable [DecidableEq α]

/-- A connection is given to the worker chosen for it. -/
def step (b : GenericLoadBalancer α) (load : α → Int) (addr : TCPAddr) : Option (α → Int) := do
  let worker ← next b load addr
  return update load worker (load worker + 1)

/-- The loads differ by at most one. -/
def Balanced (load : α → Int) (workers : List α) : Prop :=
  ∀ v ∈ workers, ∀ u ∈ workers, load v ≤ load u + 1

/-- A worker with the least load gets one more connection. -/
theorem Balanced.update {load : α → Int} {workers : List α} {worker : α}
    (balanced : Balanced load workers) (least : ∀ v ∈ workers, load worker ≤ load v) :
    Balanced (update load worker (load worker + 1)) workers := by
  intro v vIn u uIn
  have before := balanced v vIn u uIn
  have below := least u uIn
  by_cases same : v = worker
  · subst same
    rw [update_self]
    by_cases same' : u = v
    · rw [same', update_self]
      omega
    · rw [update_of_ne same']
      omega
  · rw [update_of_ne same]
    by_cases same' : u = worker
    · rw [same', update_self]
      rw [same'] at before
      omega
    · rw [update_of_ne same']
      exact before

theorem Balanced.step {b : GenericLoadBalancer α} {load load' : α → Int}
    (balanced : Balanced load b.workers) (done : step b load addr = some load') :
    Balanced load' b.workers := by
  obtain ⟨worker, chosen, same⟩ := bind_eq_some_iff.mp done
  cases same
  obtain ⟨_, _, least, _⟩ := next_firstLeast chosen
  exact balanced.update least

theorem run_balanced {b : GenericLoadBalancer α} {load load' : α → Int} {addrs : List TCPAddr}
    (ran : run (step b) addrs load = some load') (balanced : Balanced load b.workers) :
    Balanced load' b.workers :=
  run_preserves (Balanced · b.workers) (fun _ _ _ done balanced => balanced.step done) ran balanced

theorem run_defined {b : GenericLoadBalancer α} (nonempty : b.workers ≠ []) (addrs : List TCPAddr)
    (load : α → Int) : ∃ load', run (step b) addrs load = some load' := by
  induction addrs generalizing load with
  | nil => exact ⟨load, rfl⟩
  | cons addr addrs ih =>
    have some' : next b load addr ≠ none := fun none' => nonempty (next_eq_none_iff.mp none')
    obtain ⟨worker, chosen⟩ := ne_none_iff_exists'.mp some'
    obtain ⟨load', ran⟩ := ih (update load worker (load worker + 1))
    refine ⟨load', ?_⟩
    have done : step b load addr = some (update load worker (load worker + 1)) :=
      congrArg (Option.bind · _) chosen
    exact (congrArg (Option.bind · _) done).trans ran

/-- The choice is the first-registered of the workers with the least load, and loads that differ by
at most one still do after any number of connections. -/
theorem next_firstLeast_and_balanced (workers : List α) (load : α → Int) :
    (∀ addr, next (.registered workers) load addr = none ↔ workers = []) ∧
    (∀ addr worker, next (.registered workers) load addr = some worker →
      FirstLeast load workers worker) ∧
    (workers ≠ [] → Balanced load workers → ∀ addrs, ∃ load',
      run (step (.registered workers)) addrs load = some load' ∧ Balanced load' workers) := by
  have same := GenericLoadBalancer.registered_workers workers
  refine ⟨fun addr => ?_, fun addr worker chosen => ?_, fun nonempty balanced addrs => ?_⟩
  · rw [next_eq_none_iff, same]
  · have first := next_firstLeast chosen
    rwa [same] at first
  · rw [← same] at nonempty balanced
    obtain ⟨load', ran⟩ := run_defined nonempty addrs load
    have after := run_balanced ran balanced
    rw [same] at after
    exact ⟨load', ran, after⟩

end

/-- An address of a peer. -/
def peer (port : Nat) : TCPAddr := ⟨⟨[10, 0, 0, 1]⟩, port, []⟩

/-- Three workers, of which the first has a connection more than the others. -/
theorem next_firstLeast_and_balanced_three :
    FirstLeast (fun v => if v = 0 then 2 else 1) [0, 1, 2] 1 ∧
    ∃ load', run (step (.registered [0, 1, 2])) [peer 1, peer 2, peer 3, peer 4]
      (fun v => if v = 0 then 2 else 1) = some load' ∧ Balanced load' [0, 1, 2] := by
  obtain ⟨_, first, balanced⟩ :=
    next_firstLeast_and_balanced [0, 1, 2] (fun v => if v = 0 then 2 else 1)
  refine ⟨first (peer 1) 1 (by decide), balanced (by decide) ?_ _⟩
  unfold Balanced
  decide

end LeastConnectionsLoadBalancer

/-! ## In turn -/

/-- `roundRobinLoadBalancer` -/
structure RoundRobinLoadBalancer (α : Type) extends GenericLoadBalancer α where
  nextWorkerIndex : Nat

namespace RoundRobinLoadBalancer

variable {α : Type} {b b' : RoundRobinLoadBalancer α}

/-- `next`, undefined out of the range of the workers. -/
def next (b : RoundRobinLoadBalancer α) (_ : TCPAddr) : Option (α × RoundRobinLoadBalancer α) := do
  let worker ← b.workers[b.nextWorkerIndex]?
  let nextWorkerIndex := b.nextWorkerIndex + 1
  return (worker,
    { b with nextWorkerIndex := if nextWorkerIndex ≥ b.size then 0 else nextWorkerIndex })

def step (b : RoundRobinLoadBalancer α) (addr : TCPAddr) : Option (RoundRobinLoadBalancer α) :=
  (b.next addr).map Prod.snd

/-- The balancer after some number of connections. -/
def turned (workers : List α) (k : Nat) : RoundRobinLoadBalancer α :=
  ⟨.registered workers, k % workers.length⟩

/-- The next worker in turn. -/
theorem turned_next {workers : List α} (nonempty : workers ≠ []) (k : Nat) (addr : TCPAddr) :
    ∃ worker, workers[k % workers.length]? = some worker ∧
      (turned workers k).next addr = some (worker, turned workers (k + 1)) := by
  have pos : 0 < workers.length := length_pos_iff.mpr nonempty
  have lt := Nat.mod_lt k pos
  have wrapped : (if k % workers.length + 1 ≥ workers.length then 0 else k % workers.length + 1) =
      (k + 1) % workers.length := by
    rw [← Nat.mod_add_mod k workers.length 1]
    split_ifs with last
    · have full : k % workers.length + 1 = workers.length := by omega
      rw [full, Nat.mod_self]
    · exact (Nat.mod_eq_of_lt (Nat.lt_of_not_le last)).symm
  refine ⟨_, List.getElem?_eq_getElem lt, ?_⟩
  unfold next turned
  dsimp only
  rw [GenericLoadBalancer.registered_size, wrapped, GenericLoadBalancer.registered_workers,
    List.getElem?_eq_getElem lt]
  rfl

/-- The connections go to the workers in the order of their registration, over and over. -/
theorem run_next {workers : List α} (nonempty : workers ≠ []) (addrs : List TCPAddr) :
    run step addrs (turned workers 0) = some (turned workers addrs.length) ∧
    ∀ addr, ((turned workers addrs.length).next addr).map Prod.fst =
      workers[addrs.length % workers.length]? := by
  have ahead : ∀ k,
      run step addrs (turned workers k) = some (turned workers (k + addrs.length)) := by
    induction addrs with
    | nil => exact fun k => rfl
    | cons addr addrs ih =>
      intro k
      obtain ⟨worker, _, taken⟩ := turned_next nonempty k addr
      have stepped : step (turned workers k) addr = some (turned workers (k + 1)) :=
        congrArg (Option.map Prod.snd) taken
      rw [run, stepped, length_cons, Nat.add_comm addrs.length, ← Nat.add_assoc]
      exact ih (k + 1)
  refine ⟨?_, fun addr => ?_⟩
  · have all := ahead 0
    rwa [Nat.zero_add] at all
  · obtain ⟨worker, found, taken⟩ := turned_next nonempty addrs.length addr
    rw [taken, found]
    rfl

theorem run_next_three :
    run step [⟨⟨[10, 0, 0, 1]⟩, 1, []⟩, ⟨⟨[10, 0, 0, 1]⟩, 2, []⟩] (turned [7, 8, 9] 0) =
      some (turned [7, 8, 9] 2) ∧
    ∀ addr, ((turned [7, 8, 9] 2).next addr).map Prod.fst = some 9 :=
  run_next (by decide) _

end RoundRobinLoadBalancer

/-! ## By the address -/

namespace SourceIPHashLoadBalancer

variable {α : Type}

/-- The bytes of a string. -/
def bytes (s : List Char) : List UInt8 := s.flatMap String.utf8EncodeChar

/-- `hash`, where an `int` has 64 bits. -/
def hash (s : List Char) : Int :=
  let hash : Int := (Crc32.checksum (bytes s)).toNat
  if hash < 0 then -hash else hash

/-- `next`, undefined without a worker. -/
def next (b : GenericLoadBalancer α) (addr : TCPAddr) : Option α :=
  if b.size = 0 then none else b.workers[((hash addr.string).tmod b.size).toNat]?

theorem hash_eq (s : List Char) : hash s = (Crc32.checksum (bytes s)).toNat := by
  unfold hash
  dsimp only
  rw [if_neg (not_lt.mpr (Int.natCast_nonneg _))]

theorem next_eq {workers : List α} (nonempty : workers ≠ []) (addr : TCPAddr) :
    next (.registered workers) addr =
      workers[(Crc32.checksum (bytes addr.string)).toNat % workers.length]? := by
  have pos : 0 < workers.length := length_pos_iff.mpr nonempty
  unfold next
  rw [GenericLoadBalancer.registered_size, GenericLoadBalancer.registered_workers,
    if_neg (Nat.ne_of_gt pos), hash_eq, ← Int.ofNat_tmod, Int.toNat_natCast]

/-- The port is the end of the text of an address. -/
theorem string_eq (ip : IP) (zone : List Char) :
    ∃ start, ∀ port, TCPAddr.string ⟨ip, port, zone⟩ = start ++ Nat.toDigits 10 port := by
  have joined : ∀ host, ∃ start, ∀ port, joinHostPort host port = start ++ port := by
    intro host
    unfold joinHostPort
    split_ifs with colon
    · exact ⟨['['] ++ host ++ [']', ':'], fun port => rfl⟩
    · exact ⟨host ++ [':'], fun port => rfl⟩
  unfold TCPAddr.string
  dsimp only
  split_ifs with zoned
  · obtain ⟨start, same⟩ := joined (ip.string ++ ['%'] ++ zone)
    exact ⟨start, fun port => same _⟩
  · obtain ⟨start, same⟩ := joined ip.string
    exact ⟨start, fun port => same _⟩

/-- How the checksum changes from port to port does not depend on the host. -/
theorem checksum_port (start : List Char) {port port' : Nat} {mask : List UInt8}
    (length : (bytes (Nat.toDigits 10 port)).length = mask.length)
    (masked : bytes (Nat.toDigits 10 port') =
      List.zipWith (· ^^^ ·) (bytes (Nat.toDigits 10 port)) mask) :
    (Crc32.checksum (bytes (start ++ Nat.toDigits 10 port'))).toNat =
      (Crc32.checksum (bytes (start ++ Nat.toDigits 10 port))).toNat ^^^
        (Crc32.feed 0#32 mask).toNat := by
  unfold bytes at *
  rw [flatMap_append, flatMap_append, masked, Crc32.checksum_mask _ length, BitVec.toNat_xor]

/-- Connections from one IP are given to one worker, whatever their ports, exactly when there is
only one worker. -/
theorem next_same_iff {workers : List α} (nonempty : workers ≠ []) (nodup : workers.Nodup)
    (ip : IP) (zone : List Char) :
    (∀ port port', port < 65536 → port' < 65536 → next (.registered workers) ⟨ip, port, zone⟩ =
      next (.registered workers) ⟨ip, port', zone⟩) ↔ workers.length = 1 := by
  have pos : 0 < workers.length := length_pos_iff.mpr nonempty
  constructor
  · intro same
    obtain ⟨start, text⟩ := string_eq ip zone
    have congruent : ∀ port port', port < 65536 → port' < 65536 →
        (Crc32.checksum (bytes (start ++ Nat.toDigits 10 port))).toNat % workers.length =
          (Crc32.checksum (bytes (start ++ Nat.toDigits 10 port'))).toNat % workers.length := by
      intro port port' small small'
      have equal := same port port' small small'
      rw [next_eq nonempty, next_eq nonempty, text, text] at equal
      exact (List.getElem?_inj (Nat.mod_lt _ pos) nodup).mp equal
    -- ports 20, 33, 60 and 73 differ by two masks that meet in bit 14
    have masked := @checksum_port start 20 33 [1, 3] (by decide) (by decide)
    have other := @checksum_port start 20 60 [4, 0] (by decide) (by decide)
    have both := @checksum_port start 60 73 [1, 3] (by decide) (by decide)
    have first := congruent 33 20 (by decide) (by decide)
    have second := congruent 73 60 (by decide) (by decide)
    rw [masked] at first
    rw [both, other] at second
    have odd : (Crc32.feed 0#32 [1, 3]).toNat % 2 = 1 := by decide +kernel
    have meet : (Crc32.feed 0#32 [1, 3]).toNat &&& (Crc32.feed 0#32 [4, 0]).toNat = 2 ^ 14 := by
      decide +kernel
    exact eq_one_of_masks odd meet first second
  · intro one port port' _ _
    rw [next_eq nonempty, next_eq nonempty, one, Nat.mod_one, Nat.mod_one]

/-- Of two workers each is given a connection from 10.0.0.1. -/
theorem next_same_iff_two : ¬ ∀ port port', port < 65536 → port' < 65536 →
    next (.registered [0, 1]) ⟨⟨[10, 0, 0, 1]⟩, port, []⟩ =
      next (.registered [0, 1]) ⟨⟨[10, 0, 0, 1]⟩, port', []⟩ := by
  rw [next_same_iff (by decide) (by decide)]
  decide

/-- Two connections from one IP are given to different workers. -/
theorem next_ne_of_port : next (.registered [0, 1]) ⟨⟨[10, 0, 0, 1]⟩, 3, []⟩ = some 1 ∧
    next (.registered [0, 1]) ⟨⟨[10, 0, 0, 1]⟩, 4, []⟩ = some 0 := by
  decide +kernel

end SourceIPHashLoadBalancer

end Gain
