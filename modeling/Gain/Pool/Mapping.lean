import Gain.Errors
import Gain.Foundation.Run
import Gain.Pool.VirtualMem

/-! # Mapping a file twice

`allocateBuffer` reserves twice the size and maps one file over both halves of it, so that
an address and the one a size further are the same byte. The kernel keeps for an address
the object behind it and the offset there, and decides where to reserve and which calls fail.
-/

namespace Gain

open Function

/-- The memory of the process. -/
structure AddressSpace where
  pageSize : Nat
  maps : Nat → Option (Nat × Nat)
  bytes : Nat → Nat → UInt8
  lengths : Nat → Nat
  /-- The number of objects so far. -/
  objects : Nat

structure Kernel where
  page : Nat
  reserve : Option Error := none
  memfdCreate : Option Error := none
  ftruncate : Option Error := none
  first : Option Error := none
  second : Option Error := none

namespace AddressSpace

/-- A byte is read. Behind the end of a file there is none. -/
def load (s : AddressSpace) (a : Nat) : Option UInt8 := do
  let (object, offset) ← s.maps a
  if offset < s.lengths object then some (s.bytes object offset) else none

def store (s : AddressSpace) (write : Nat × UInt8) : Option AddressSpace := do
  let (object, offset) ← s.maps write.1
  let bytes := update (s.bytes object) offset write.2
  if offset < s.lengths object then
    some { s with bytes := update s.bytes object bytes }
  else none

/-- A new object, all zeroes. -/
def create (s : AddressSpace) (length : Nat) : AddressSpace :=
  { s with
    bytes := update s.bytes s.objects fun _ => 0
    lengths := update s.lengths s.objects length
    objects := s.objects + 1 }

/-- The addresses are mapped to the object, without the rest of the last page. -/
def map (s : AddressSpace) (addr length object : Nat) : AddressSpace :=
  { s with maps := fun a =>
      if addr ≤ a ∧ a < addr + length then some (object, a - addr) else s.maps a }

/-- `internalMmap` to the begin of an object. The address has to be that of a page. -/
def internalMmap (s : AddressSpace) (err : Option Error) (addr length object : Nat) :
    Except Error AddressSpace :=
  match err with
  | some err => .error (.wrapped "internalMMap error" err)
  | none =>
    if 0 < length ∧ s.pageSize ∣ addr then .ok (s.map addr length object)
    else .error (.wrapped "internalMMap error" (.external 22))

/-- The address of the slice, which is of twice the size. With an error it panics. -/
def allocateBuffer (s : AddressSpace) (k : Kernel) (size : Nat) :
    Except Error (Nat × AddressSpace) :=
  let vaddr := k.page * s.pageSize
  match (s.create (2 * size)).internalMmap k.reserve vaddr (2 * size) s.objects,
    k.memfdCreate, k.ftruncate with
  | .error err, _, _ | .ok _, some err, _ | .ok _, none, some err => .error err
  | .ok s, none, none =>
    let fd := s.objects
    match (s.create size).internalMmap k.first vaddr size fd with
    | .error err => .error (.wrapped "first internal mmap failed" err)
    | .ok s =>
      match s.internalMmap k.second (vaddr + size) size fd with
      | .error err => .error (.wrapped "second internal mmap failed" err)
      | .ok s => .ok (vaddr, s)

/-- The memory of the ring buffer's model in an address space. -/
structure Mirrors (s : AddressSpace) (file : Nat) (m : VirtualMem) : Prop where
  maps : ∀ i < 2 * m.size, s.maps (m.addr + i) = some (file, i % m.size)
  length : s.lengths file = m.size
  cells : ∀ c < m.size, s.bytes file c = m.cells c

variable {s s' : AddressSpace} {k : Kernel} {size addr length file vaddr : Nat} {m : VirtualMem}
  {i : Nat}

theorem internalMmap_eq_ok {err : Option Error}
    (mapped : s.internalMmap err addr length file = .ok s') :
    0 < length ∧ s.pageSize ∣ addr ∧ s.map addr length file = s' := by
  unfold internalMmap at mapped
  split at mapped
  · cases mapped
  · split_ifs at mapped with valid
    cases mapped
    exact ⟨valid.1, valid.2, rfl⟩

/-- The second half leads to the same bytes as the first. -/
theorem map_twice (s : AddressSpace) (inside : i < 2 * size) :
    ((s.map vaddr size file).map (vaddr + size) size file).maps (vaddr + i) =
      some (file, i % size) := by
  dsimp only [map]
  by_cases low : i < size
  · rw [if_neg (by omega), if_pos (by omega), Nat.add_sub_cancel_left, Nat.mod_eq_of_lt low]
  · rw [if_pos (by omega), Nat.mod_eq_sub_mod (by omega), Nat.mod_eq_of_lt (by omega),
      Nat.add_sub_add_left]

/-- If it returns, the slice is a memory of zeroes, of whole pages. -/
theorem allocateBuffer_mirrors (done : s.allocateBuffer k size = .ok (vaddr, s')) :
    0 < size ∧ s.pageSize ∣ size ∧ Mirrors s' (s.objects + 1) ⟨vaddr, size, fun _ => 0⟩ := by
  unfold allocateBuffer at done
  dsimp only at done
  split at done
  · cases done
  · cases done
  · cases done
  · rename_i t reserved _ _
    obtain ⟨_, _, rfl⟩ := internalMmap_eq_ok reserved
    split at done
    · cases done
    · rename_i t first
      obtain ⟨pos, begin', rfl⟩ := internalMmap_eq_ok first
      split at done
      · cases done
      · rename_i t second
        obtain ⟨_, middle, rfl⟩ := internalMmap_eq_ok second
        cases done
        exact ⟨pos, (Nat.dvd_add_right begin').mp middle, fun i inside => map_twice _ inside,
          update_self .., fun c _ => congrFun (update_self ..) c⟩

namespace Mirrors

theorem load (mirrors : Mirrors s file m) (inside : i < 2 * m.size) :
    s.load (m.addr + i) = m.get? i := by
  have below : i % m.size < m.size := Nat.mod_lt i (by omega)
  rw [AddressSpace.load, mirrors.maps i inside]
  dsimp only [bind, Option.bind]
  rw [mirrors.length, if_pos below, mirrors.cells _ below, VirtualMem.get?, if_pos (by omega),
    Int.toNat_natCast]

/-- A byte is written at both of its addresses at once. -/
theorem store (mirrors : Mirrors s file m) (inside : i < 2 * m.size) (b : UInt8) :
    ∃ s' m', s.store (m.addr + i, b) = some s' ∧ m.set? i b = some m' ∧
      m'.addr = m.addr ∧ m'.size = m.size ∧ Mirrors s' file m' := by
  have below : i % m.size < m.size := Nat.mod_lt i (by omega)
  refine ⟨{ s with
      bytes := update s.bytes file (update (s.bytes file) (i % m.size) b) },
    _, ?_, if_pos (by omega), rfl, rfl, mirrors.maps, mirrors.length, fun c lt => ?_⟩
  · rw [AddressSpace.store, mirrors.maps i inside]
    dsimp only [bind, Option.bind]
    rw [mirrors.length, if_pos below]
  · change update s.bytes file _ file c = update m.cells (i % m.size) b c
    rw [update_self]
    by_cases own : c = i % m.size
    · rw [own, update_self, update_self]
    · rw [update_of_ne own, update_of_ne own]
      exact mirrors.cells c lt

/-- Many bytes are stored one by one. -/
theorem run_store (mirrors : Mirrors s file m) {writes : List (Nat × UInt8)}
    (inside : ∀ w ∈ writes, w.1 < 2 * m.size) : ∃ s' m',
      run AddressSpace.store (writes.map fun w => (m.addr + w.1, w.2)) s = some s' ∧
      run (fun (m : VirtualMem) w => m.set? w.1 w.2) writes m = some m' ∧
      m'.addr = m.addr ∧ m'.size = m.size ∧ Mirrors s' file m' := by
  induction writes generalizing s m with
  | nil => exact ⟨s, m, rfl, rfl, rfl, rfl, mirrors⟩
  | cons w writes ih =>
    obtain ⟨s₁, m₁, stored, set, addr, size, after⟩ :=
      mirrors.store (inside w List.mem_cons_self) w.2
    obtain ⟨s', m', ran, ran', addr', size', last⟩ :=
      ih after fun v member => size.symm ▸ inside v (List.mem_cons_of_mem w member)
    rw [addr] at ran addr'
    rw [size] at size'
    exact ⟨s', m', (run_cons stored).trans ran, (run_cons set).trans ran', addr', size', last⟩

end Mirrors

/-- If it returns, the size is one of whole pages, and whatever is written to the slice, it reads
like the memory of the ring buffer's model. -/
theorem allocateBuffer_refines {writes : List (Nat × UInt8)}
    (done : s.allocateBuffer k size = .ok (vaddr, s'))
    (inside : ∀ w ∈ writes, w.1 < 2 * size) : 0 < size ∧ s.pageSize ∣ size ∧ ∃ t m,
      run store (writes.map fun w => (vaddr + w.1, w.2)) s' = some t ∧
      run (fun (m : VirtualMem) w => m.set? w.1 w.2) writes ⟨vaddr, size, fun _ => 0⟩ = some m ∧
      ∀ i : Nat, i < 2 * size → t.load (vaddr + i) = m.get? i := by
  obtain ⟨pos, whole, mirrors⟩ := allocateBuffer_mirrors done
  obtain ⟨t, m, ran, ran', addr, size', last⟩ := mirrors.run_store inside
  refine ⟨pos, whole, t, m, ran, ran', fun i lt => ?_⟩
  rw [show vaddr = m.addr from addr.symm]
  exact last.load (size'.symm ▸ lt)

/-- Nothing is mapped. -/
def unmapped : AddressSpace := ⟨4096, fun _ => none, fun _ _ => 0, fun _ => 0, 0⟩

/-- A page is written in the second half and in the first. -/
theorem allocateBuffer_refines_page : ∃ s' t m,
    unmapped.allocateBuffer { page := 2 } 4096 = .ok (8192, s') ∧
    run store [(12291, 7), (8197, 8)] s' = some t ∧
    ∀ i : Nat, i < 8192 → t.load (8192 + i) = VirtualMem.get? m i := by
  obtain ⟨s', done⟩ : ∃ s', unmapped.allocateBuffer { page := 2 } 4096 = .ok (8192, s') := ⟨_, rfl⟩
  have inside : ∀ w ∈ [((4099 : Nat), (7 : UInt8)), (5, 8)], w.1 < 2 * 4096 := by decide
  obtain ⟨_, _, t, m, ran, _, reads⟩ := allocateBuffer_refines done inside
  exact ⟨s', t, m, done, ran, reads⟩

end AddressSpace

end Gain
