import Gain.Errors
import Gain.Pool.VirtualMem

/-! # The magic ring buffer

The operations of `magicring.RingBuffer`, field by field. Indices are Go `int`s
and may become negative; an index or slice expression out of range, a division
by zero, a nil memory and a call of `log.Panic` are all the result `none`.

Growing takes a memory from a `MemSource` and gives the old one back, so the
growing operations also carry the state of the source.
-/

namespace Gain

/-- Go's `%`, which takes the sign of the dividend and panics on zero. -/
def goMod (a b : Int) : Option Int := if b = 0 then none else some (a.tmod b)

/-- `MinRead` -/
def minRead : Int := 1024

/-- The cell of a mapped region that a pointer names. -/
structure Address where
  region : Nat
  offset : Nat
  deriving DecidableEq, Repr

/-- Bytes appear at an address, which lies in the memory or not. -/
def VirtualMem.deposit (m : VirtualMem) (a : Address) (data : List UInt8) : VirtualMem :=
  if m.addr = a.region then { m with cells := Mirror.fill m.cells m.size a.offset data } else m

@[simp] theorem VirtualMem.deposit_addr (m : VirtualMem) (a : Address) (data : List UInt8) :
    (m.deposit a data).addr = m.addr := by
  unfold deposit
  split_ifs <;> rfl

@[simp] theorem VirtualMem.deposit_size (m : VirtualMem) (a : Address) (data : List UInt8) :
    (m.deposit a data).size = m.size := by
  unfold deposit
  split_ifs <;> rfl

structure RingBuffer where
  vm : Option VirtualMem
  size : Int
  /-- Next position to read. -/
  r : Int
  /-- Next position to write. -/
  w : Int
  isEmpty : Bool

namespace RingBuffer

def reset (rb : RingBuffer) : RingBuffer := { rb with isEmpty := true, r := 0, w := 0 }

/-- The length of available bytes to write. -/
def available (rb : RingBuffer) : Int :=
  if rb.r = rb.w then
    if rb.isEmpty then rb.size else 0
  else if rb.w < rb.r then rb.r - rb.w
  else rb.size - rb.w + rb.r

/-- The length of available bytes to read. -/
def buffered (rb : RingBuffer) : Int :=
  if rb.r = rb.w then
    if rb.isEmpty then 0 else rb.size
  else if rb.w > rb.r then rb.w - rb.r
  else rb.size - rb.r + rb.w

def isFull (rb : RingBuffer) : Bool := rb.r = rb.w ∧ !rb.isEmpty

def cap (rb : RingBuffer) : Int := rb.size

/-- `vm.Buf[lo:hi]` -/
def slice (rb : RingBuffer) (lo hi : Int) : Option (List UInt8) :=
  rb.vm.bind fun m => m.slice? lo hi

/-- `&vm.Buf[i]` -/
def addressOf (rb : RingBuffer) (i : Int) : Option Address :=
  rb.vm.bind fun m => (m.get? i).map fun _ => ⟨m.addr, i.toNat⟩

def readAddress (rb : RingBuffer) : Option Address := rb.addressOf rb.r

def writeAddress (rb : RingBuffer) : Option Address := rb.addressOf rb.w

/-- The bytes appear at an address without an action of the buffer, which is
where the memory behind it lies or not. -/
def deposit (rb : RingBuffer) (a : Address) (data : List UInt8) : RingBuffer :=
  { rb with vm := rb.vm.map fun m => m.deposit a data }

/-- The `copy(vm.Buf[w:], data)` of a write, without the move of the write index. -/
def store (rb : RingBuffer) (data : List UInt8) : Option RingBuffer :=
  rb.vm.bind fun m => (m.copyAt? rb.w data).map fun m => { rb with vm := some m }

/-- The read index moves; a buffer whose indices meet is reset. -/
def moveRead (rb : RingBuffer) (r : Int) : RingBuffer :=
  if r = rb.w then { rb with r := r }.reset else { rb with r := r }

/-- `Read` into a buffer of length `limit`: the count, the error and the bytes
that overwrite the front of the buffer. -/
def readUpTo (rb : RingBuffer) (limit : Int) :
    Option ((Int × Option Error × List UInt8) × RingBuffer) :=
  if limit = 0 then some ((0, none, []), rb)
  else if rb.isEmpty then some ((0, some .isEmpty, []), rb)
  else do
    let n := if rb.buffered > limit then limit else rb.buffered
    let bytes ← rb.slice rb.r (rb.r + n)
    let r ← goMod (rb.r + n) rb.size
    return ((n, none, bytes), rb.moveRead r)

/-- `Read`: the count, the error and the caller's buffer afterwards. -/
def read (rb : RingBuffer) (buffer : List UInt8) :
    Option ((Int × Option Error × List UInt8) × RingBuffer) := do
  let ((n, err, bytes), rb) ← rb.readUpTo buffer.length
  return ((n, err, bytes ++ buffer.drop bytes.length), rb)

def advanceWrite (rb : RingBuffer) (bytesToAdvance : Int) : Option RingBuffer :=
  if bytesToAdvance = 0 then some rb
  else if bytesToAdvance > rb.available then none
  else if rb.w + bytesToAdvance ≥ rb.size then
    some { rb with isEmpty := false, w := rb.w + bytesToAdvance - rb.size }
  else some { rb with isEmpty := false, w := rb.w + bytesToAdvance }

def advanceRead (rb : RingBuffer) (bytesToAdvance : Int) : Option RingBuffer :=
  if bytesToAdvance = 0 then some rb
  else if bytesToAdvance > rb.buffered then none
  else if rb.r + bytesToAdvance ≥ rb.size then
    some (rb.moveRead (rb.r + bytesToAdvance - rb.size))
  else some (rb.moveRead (rb.r + bytesToAdvance))

def discard (rb : RingBuffer) (bytesToDiscard : Int) : Option (Int × RingBuffer) :=
  if bytesToDiscard = 0 then some (0, rb)
  else if bytesToDiscard < rb.buffered then do
    let r ← goMod (rb.r + bytesToDiscard) rb.size
    return (bytesToDiscard, { rb with r := r })
  else some (rb.buffered, rb.reset)

/-- The slice is taken before the deferred `Discard` runs. -/
def next (rb : RingBuffer) (nBytes : Int) :
    Option ((List UInt8 × Option Error) × RingBuffer) :=
  if nBytes > rb.buffered then some (([], some .shortBuffer), rb)
  else do
    let n := if nBytes ≤ 0 then rb.buffered else nBytes
    let bytes ← rb.slice rb.r (rb.r + n)
    let (_, rb) ← rb.discard n
    return ((bytes, none), rb)

def peekAll (rb : RingBuffer) : Option (List UInt8) :=
  if rb.isEmpty then some [] else rb.slice rb.r (rb.r + rb.buffered)

def peek (rb : RingBuffer) (bytesToPeek : Int) : Option (List UInt8) :=
  if rb.isEmpty then some []
  else if bytesToPeek ≤ 0 then rb.peekAll
  else
    let n := if rb.buffered > bytesToPeek then bytesToPeek else rb.buffered
    rb.slice rb.r (rb.r + n)

def bytes (rb : RingBuffer) : Option (List UInt8) :=
  if rb.isEmpty then some [] else rb.slice rb.r (rb.r + rb.buffered)

def readByte (rb : RingBuffer) : Option ((UInt8 × Option Error) × RingBuffer) :=
  if rb.isEmpty then some ((0, some .isEmpty), rb)
  else do
    let b ← rb.vm.bind fun m => m.get? rb.r
    let r := if rb.r + 1 = rb.size then 0 else rb.r + 1
    return ((b, none), rb.moveRead r)

/-- Clears the first `Size` bytes of the memory. -/
def zeroes (rb : RingBuffer) : Option RingBuffer :=
  if rb.size ≤ 0 then some rb
  else rb.vm.bind fun m =>
    if rb.size ≤ 2 * m.size then
      some { rb with vm := some { m with
        cells := fun c => if (c : Int) < rb.size ∧ c < m.size then 0 else m.cells c } }
    else none

/-- `WriteTo` with a writer that takes the bytes offered to it with the result
`(written, err)`: the bytes offered, the count and the error. -/
def writeTo (rb : RingBuffer) (written : Int) (err : Option Error) :
    Option ((List UInt8 × Int × Option Error) × RingBuffer) :=
  if rb.isEmpty then some (([], 0, some .isEmpty), rb)
  else do
    let offered ← rb.slice rb.r (rb.r + rb.buffered)
    if written > rb.buffered then none
    else
      let r ← goMod (rb.r + written) rb.size
      let rb := rb.moveRead r
      match err with
      | some e => return ((offered, written, some e), rb)
      | none =>
        if rb.isEmpty then return ((offered, written, none), rb)
        else return ((offered, written, some .shortWrite), rb)

section Growth

variable {σ : Type} (source : MemSource σ)

/-- The memory is taken before the old one is given back. -/
def grow (rb : RingBuffer) (newCap : Int) (s : σ) : Option (RingBuffer × σ) := do
  let newCap := adjustBufferSize source.pageSize newCap
  let (ptr, s) := source.get newCap s
  let newBuf ← ptr
  let oldLen := rb.buffered
  let ((_, _, moved), rb) ← rb.readUpTo (2 * newBuf.size)
  let newBuf ← newBuf.copyAt? 0 moved
  let s := match rb.vm with
    | some old => source.put old s
    | none => s
  return ({ vm := some newBuf, size := newCap, r := 0, w := oldLen,
            isEmpty := if oldLen > 0 then false else rb.isEmpty }, s)

/-- The growth before a write, when there is too little room. -/
def growWhen (rb : RingBuffer) (needed : Bool) (newCap : Int) (s : σ) : Option (RingBuffer × σ) :=
  if needed then rb.grow source newCap s else some (rb, s)

def growIfUnsufficientFreeSpace (rb : RingBuffer) (s : σ) : Option (RingBuffer × σ) :=
  rb.growWhen source (rb.available < minRead) (rb.buffered + minRead) s

def write (rb : RingBuffer) (buffer : List UInt8) (s : σ) : Option (Int × RingBuffer × σ) :=
  if buffer.length = 0 then some (0, rb, s)
  else do
    let (rb, s) ← rb.growWhen source (buffer.length > rb.available)
      (rb.size + buffer.length - rb.available) s
    let rb ← rb.store buffer
    let w ← goMod (rb.w + buffer.length) rb.size
    return (buffer.length, { rb with w := w, isEmpty := false }, s)

def writeByte (rb : RingBuffer) (c : UInt8) (s : σ) : Option (RingBuffer × σ) := do
  let (rb, s) ← rb.growWhen source (rb.available < 1) (rb.size + 1) s
  let m ← rb.vm.bind fun m => m.set? rb.w c
  return ({ rb with vm := some m, w := if rb.w + 1 = rb.size then 0 else rb.w + 1,
                    isEmpty := false }, s)

/-- `ReadFrom` with a reader that answers successive reads with the listed
chunks and no error, and then with a last chunk and a final error: the total
and the error. A chunk longer than the slice offered is not an answer a reader
may give. -/
def readFrom (rb : RingBuffer) : List (List UInt8) → List UInt8 → Error → σ →
    Option ((Int × Option Error) × RingBuffer × σ)
  | chunks, last, final, s => do
    let (rb, s) ← rb.growIfUnsufficientFreeSpace source s
    let _ ← rb.slice rb.w (rb.w + rb.available)
    match chunks with
    | [] =>
      if last.length > rb.available then none
      else
        let rb ← rb.store last
        let w ← goMod (rb.w + last.length) rb.size
        let err := if final = .eof then none else some (.wrapped "reader Read error" final)
        return ((last.length, err), { rb with w := w, isEmpty := false }, s)
    | chunk :: chunks =>
      if chunk.length > rb.available then none
      else
        let rb ← rb.store chunk
        let w ← goMod (rb.w + chunk.length) rb.size
        let ((total, err), rb, s) ←
          readFrom { rb with w := w, isEmpty := false } chunks last final s
        return ((chunk.length + total, err), rb, s)

/-- `NewMagicBuffer` -/
def newMagicBuffer (size : Int) (s : σ) : RingBuffer × σ :=
  if size = 0 then (⟨none, 0, 0, 0, true⟩, s)
  else
    let size := adjustBufferSize source.pageSize size
    let (vm, s) := source.get size s
    (⟨vm, size, 0, 0, true⟩, s)

/-- `ReleaseBytes` -/
def releaseBytes (rb : RingBuffer) (s : σ) : Option σ :=
  rb.vm.map fun m => source.put m s

end Growth

end RingBuffer

end Gain
