import Gain.Foundation.Mirror
import Gain.Foundation.SyncPool

/-! # Mirrored memory and its pool

A `VirtualMem` of size `n` is a slice of `2 * n` bytes whose two halves are the
same `n` cells. Memories are recycled through a pool of size classes: a request
looks in the class of the smallest power of two that is not below the rounded
size, and a released memory that is not a power of two goes one class down.
-/

namespace Gain

open Function Mirror

structure VirtualMem where
  /-- The mapping's address, which names it. -/
  addr : Nat
  size : Nat
  cells : Nat → UInt8

namespace VirtualMem

/-- `Buf[i]`, undefined out of range. -/
def get? (m : VirtualMem) (i : Int) : Option UInt8 :=
  if 0 ≤ i ∧ i < 2 * m.size then some (m.cells (i.toNat % m.size)) else none

/-- `Buf[i] = b`, undefined out of range. -/
def set? (m : VirtualMem) (i : Int) (b : UInt8) : Option VirtualMem :=
  if 0 ≤ i ∧ i < 2 * m.size then some { m with cells := fill m.cells m.size i.toNat [b] } else none

/-- `Buf[lo:hi]`, undefined out of range. -/
def slice? (m : VirtualMem) (lo hi : Int) : Option (List UInt8) :=
  if 0 ≤ lo ∧ lo ≤ hi ∧ hi ≤ 2 * m.size then
    some (window m.cells m.size lo.toNat (hi - lo).toNat)
  else none

/-- `copy(Buf[lo:], data)`, undefined when `lo` is out of range. -/
def copyAt? (m : VirtualMem) (lo : Int) (data : List UInt8) : Option VirtualMem :=
  if 0 ≤ lo ∧ lo ≤ 2 * m.size then
    some { m with cells := fill m.cells m.size lo.toNat (data.take (2 * m.size - lo.toNat)) }
  else none

/-- Clears the first `size` bytes, which are all the cells. -/
def zeroes (m : VirtualMem) : VirtualMem :=
  { m with cells := fun c => if c < m.size then 0 else m.cells c }

end VirtualMem

/-- The size rounded up to whole pages. The source divides, rounds up and
multiplies in `float64`, which is exact on every size an address space holds. -/
def adjustBufferSize (pageSize : Nat) (size : Int) : Int :=
  -(-size / pageSize) * pageSize

/-- The virtual memory package as the ring buffer uses it. -/
structure MemSource (σ : Type) where
  pageSize : Nat
  pageSize_pos : 0 < pageSize
  get : Int → σ → Option VirtualMem × σ
  put : VirtualMem → σ → σ

namespace MemSource

variable {σ : Type} (source : MemSource σ)

/-- The request is answered with a memory mirrored at the requested size. -/
def Ready (size : Int) (s : σ) : Prop :=
  ∃ m s', source.get size s = (some m, s') ∧ (m.size : Int) = size

def Mirrored : Prop := ∀ (size : Int) (s : σ), 0 < size → source.Ready size s

end MemSource

namespace VirtualMem

def maxVMSize : Nat := 64 * 1024 * 1024

/-- `bits.Len32` -/
def len32 (n : Nat) : Nat := if n = 0 then 0 else Nat.log2 n + 1

def index (n : Nat) : Nat := len32 (n - 1)

structure Pool where
  pools : Nat → SyncPool VirtualMem
  /-- The address of the next mapping. -/
  nextAddr : Nat

namespace Pool

/-- `NewVirtualMem`: a fresh mapping, zero filled. -/
def newVirtualMem (p : Pool) (size : Nat) : VirtualMem × Pool :=
  (⟨p.nextAddr, size, fun _ => 0⟩, { p with nextAddr := p.nextAddr + 1 })

def get (pageSize : Nat) (size : Int) (p : Pool) : Option VirtualMem × Pool :=
  if size ≤ 0 then (none, p)
  else
    let size := (adjustBufferSize pageSize size).toNat
    if size > maxVMSize then
      let (m, p) := p.newVirtualMem size
      (some m, p)
    else
      let idx := index size
      let (ptr, pool) := (p.pools idx).get
      let p := { p with pools := update p.pools idx pool }
      match ptr with
      | none =>
        let (m, p) := p.newVirtualMem size
        (some m, p)
      | some m => (some m, p)

/-- The class a released memory goes to. -/
def putIndex (size : Nat) : Nat :=
  if size ≠ 2 ^ index size then index size - 1 else index size

def put (pageSize : Nat) (m : VirtualMem) (p : Pool) : Pool :=
  if m.size < pageSize ∨ m.size > maxVMSize then p
  else
    { p with
      pools := update p.pools (putIndex m.size) ((p.pools (putIndex m.size)).put m) }

end Pool

/-- The package-level `Get` and `Put` on the built-in pool. -/
def builtin (pageSize : Nat) (pos : 0 < pageSize) : MemSource Pool where
  pageSize := pageSize
  pageSize_pos := pos
  get := Pool.get pageSize
  put := fun m p => p.put pageSize m.zeroes

end VirtualMem

end Gain
