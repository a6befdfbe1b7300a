import Mathlib.Logic.Relation
import Gain.Buffer.Fifo

/-! # What an operation does to the size

Of all the operations of a ring buffer only growing touches the size, or which
memory lies behind it, and no operation grows more than once. This is read off the code
without any assumption on the buffer or on the memory source.
-/

namespace Gain.RingBuffer

open Option

variable {σ : Type} {source : MemSource σ} {rb rb' : RingBuffer} {n newCap : Int}

/-- The address and the size of the memory behind the buffer. -/
def footing (rb : RingBuffer) : Option (Nat × Nat) := rb.vm.map fun m => (m.addr, m.size)

/-- The sizes stay, or the buffer takes one memory from the source, gives the
one it had back, and has the requested size. -/
inductive Resized (source : MemSource σ) (rb : RingBuffer) (s : σ) (rb' : RingBuffer) : σ → Prop
  | same (size : rb'.size = rb.size) (footing : rb'.footing = rb.footing) :
      Resized source rb s rb' s
  | grown {newCap : Int} {m : VirtualMem} {s₁ : σ}
      (got : source.get (adjustBufferSize source.pageSize newCap) s = (some m, s₁))
      (size : rb'.size = adjustBufferSize source.pageSize newCap)
      (footing : rb'.footing = some (m.addr, m.size)) :
      Resized source rb s rb' (match rb.vm with
        | some old => source.put old s₁
        | none => s₁)

theorem Resized.then_same {rb'' : RingBuffer} {s s' : σ} (resized : Resized source rb s rb' s')
    (size : rb''.size = rb'.size) (footing : rb''.footing = rb'.footing) :
    Resized source rb s rb'' s' := by
  cases resized with
  | same size' footing' => exact .same (size.trans size') (footing.trans footing')
  | grown got size' footing' => exact .grown got (size.trans size') (footing.trans footing')

theorem moveRead_vm (rb : RingBuffer) (r : Int) : (rb.moveRead r).vm = rb.vm := by
  unfold moveRead
  split <;> rfl

theorem moveRead_size (rb : RingBuffer) (r : Int) : (rb.moveRead r).size = rb.size := by
  unfold moveRead
  split <;> rfl

theorem advanceWrite_frame (moved : rb.advanceWrite n = some rb') :
    rb'.vm = rb.vm ∧ rb'.size = rb.size := by
  unfold advanceWrite at moved
  split_ifs at moved <;> cases moved <;> exact ⟨rfl, rfl⟩

theorem advanceRead_frame (moved : rb.advanceRead n = some rb') :
    rb'.vm = rb.vm ∧ rb'.size = rb.size := by
  unfold advanceRead at moved
  split_ifs at moved <;> cases moved
  · exact ⟨rfl, rfl⟩
  · exact ⟨moveRead_vm .., moveRead_size ..⟩
  · exact ⟨moveRead_vm .., moveRead_size ..⟩

theorem readUpTo_frame {limit : Int} {reply : Int × Option Error × List UInt8}
    (read : rb.readUpTo limit = some (reply, rb')) : rb'.vm = rb.vm ∧ rb'.size = rb.size := by
  unfold readUpTo at read
  split_ifs at read
  · cases read
    exact ⟨rfl, rfl⟩
  · cases read
    exact ⟨rfl, rfl⟩
  all_goals
    obtain ⟨bytes, _, rest⟩ := bind_eq_some_iff.mp read
    obtain ⟨r, _, last⟩ := bind_eq_some_iff.mp rest
    cases last
    exact ⟨moveRead_vm rb r, moveRead_size rb r⟩

theorem discard_frame {k : Int} (dropped : rb.discard n = some (k, rb')) :
    rb'.vm = rb.vm ∧ rb'.size = rb.size := by
  unfold discard at dropped
  split_ifs at dropped
  · cases dropped
    exact ⟨rfl, rfl⟩
  · obtain ⟨r, _, last⟩ := bind_eq_some_iff.mp dropped
    cases last
    exact ⟨rfl, rfl⟩
  · cases dropped
    exact ⟨rfl, rfl⟩

theorem next_frame {reply : List UInt8 × Option Error} (took : rb.next n = some (reply, rb')) :
    rb'.vm = rb.vm ∧ rb'.size = rb.size := by
  unfold next at took
  split_ifs at took
  · cases took
    exact ⟨rfl, rfl⟩
  all_goals
    obtain ⟨bytes, _, rest⟩ := bind_eq_some_iff.mp took
    obtain ⟨⟨k, rb₂⟩, dropped, inner⟩ := bind_eq_some_iff.mp rest
    cases inner
    exact discard_frame dropped

theorem zeroes_frame (cleared : rb.zeroes = some rb') :
    rb'.footing = rb.footing ∧ rb'.size = rb.size := by
  unfold zeroes at cleared
  split_ifs at cleared
  · cases cleared
    exact ⟨rfl, rfl⟩
  · obtain ⟨m, present, set⟩ := bind_eq_some_iff.mp cleared
    split_ifs at set
    cases set
    simp only [footing, present, map_some, and_self]

theorem store_frame {data : List UInt8} (stored : rb.store data = some rb') :
    rb'.footing = rb.footing ∧ rb'.size = rb.size := by
  unfold store at stored
  obtain ⟨m, present, copied⟩ := bind_eq_some_iff.mp stored
  obtain ⟨m', copy, rfl⟩ := map_eq_some_iff.mp copied
  refine ⟨?_, rfl⟩
  unfold VirtualMem.copyAt? at copy
  split_ifs at copy
  cases copy
  simp only [footing, present, map_some]

theorem deposit_footing (rb : RingBuffer) (a : Address) (data : List UInt8) :
    (rb.deposit a data).footing = rb.footing := by
  simp only [footing, deposit, Option.map_map, Function.comp_def, VirtualMem.deposit_addr,
    VirtualMem.deposit_size]

/-- Growing puts the content in a larger memory. -/
theorem grow_resized {s s' : σ} (grown : rb.grow source newCap s = some (rb', s')) :
    Resized source rb s rb' s' := by
  unfold grow at grown
  obtain ⟨m, got, rest⟩ := bind_eq_some_iff.mp grown
  obtain ⟨⟨reply, moved⟩, read, rest⟩ := bind_eq_some_iff.mp rest
  obtain ⟨m', copied, last⟩ := bind_eq_some_iff.mp rest
  obtain ⟨vm, _⟩ := readUpTo_frame read
  have kept : (m'.addr, m'.size) = (m.addr, m.size) := by
    unfold VirtualMem.copyAt? at copied
    split_ifs at copied
    cases copied
    rfl
  cases last
  rw [vm]
  refine .grown (Prod.ext got rfl) rfl ?_
  simp only [footing, map_some, kept]

theorem growWhen_resized {needed : Bool} {s s' : σ}
    (grown : rb.growWhen source needed newCap s = some (rb', s')) : Resized source rb s rb' s' := by
  unfold growWhen at grown
  split_ifs at grown
  · exact grow_resized grown
  · cases grown
    exact .same rfl rfl

theorem write_resized {buffer : List UInt8} {s s' : σ}
    (wrote : rb.write source buffer s = some (n, rb', s')) : Resized source rb s rb' s' := by
  unfold write at wrote
  split_ifs at wrote
  · cases wrote
    exact .same rfl rfl
  · obtain ⟨⟨rb₁, s₁⟩, grown, rest⟩ := bind_eq_some_iff.mp wrote
    obtain ⟨rb₂, stored, rest⟩ := bind_eq_some_iff.mp rest
    obtain ⟨w, _, last⟩ := bind_eq_some_iff.mp rest
    cases last
    obtain ⟨footing, size⟩ := store_frame stored
    exact (growWhen_resized grown).then_same size footing

theorem writeByte_resized {c : UInt8} {s s' : σ}
    (wrote : rb.writeByte source c s = some (rb', s')) :
    Resized source rb s rb' s' := by
  unfold writeByte at wrote
  obtain ⟨⟨rb₁, s₁⟩, grown, rest⟩ := bind_eq_some_iff.mp wrote
  obtain ⟨m, stored, last⟩ := bind_eq_some_iff.mp rest
  obtain ⟨old, present, set⟩ := bind_eq_some_iff.mp stored
  cases last
  refine (growWhen_resized grown).then_same rfl ?_
  unfold VirtualMem.set? at set
  split_ifs at set
  cases set
  simp only [footing, present, map_some]

/-- Every operation keeps the sizes or grows once. -/
theorem Op.exec_resized {op : Op} {reply : Reply} {s s' : σ}
    (done : op.exec source rb s = some (reply, rb', s')) : Resized source rb s rb' s' := by
  have keep : ∀ {rb' : RingBuffer}, rb'.vm = rb.vm ∧ rb'.size = rb.size →
      Resized source rb s rb' s :=
    fun frame =>
      .same frame.2 (congrArg (Option.map fun m : VirtualMem => (m.addr, m.size)) frame.1)
  cases op with
  | write buffer =>
    obtain ⟨⟨n, rb₁, s₁⟩, wrote, last⟩ := bind_eq_some_iff.mp done
    cases last
    exact write_resized wrote
  | writeByte c =>
    obtain ⟨⟨rb₁, s₁⟩, wrote, last⟩ := bind_eq_some_iff.mp done
    cases last
    exact writeByte_resized wrote
  | read buffer =>
    obtain ⟨⟨reply₁, rb₁⟩, read, last⟩ := bind_eq_some_iff.mp done
    obtain ⟨⟨reply₂, rb₂⟩, took, inner⟩ := bind_eq_some_iff.mp read
    cases inner
    cases last
    exact keep (readUpTo_frame took)
  | readByte =>
    obtain ⟨⟨reply₁, rb₁⟩, read, last⟩ := bind_eq_some_iff.mp done
    cases last
    unfold RingBuffer.readByte at read
    split_ifs at read
    · cases read
      exact keep ⟨rfl, rfl⟩
    · obtain ⟨b, _, inner⟩ := bind_eq_some_iff.mp read
      cases inner
      exact keep ⟨moveRead_vm .., moveRead_size ..⟩
    · obtain ⟨b, _, inner⟩ := bind_eq_some_iff.mp read
      cases inner
      exact keep ⟨moveRead_vm .., moveRead_size ..⟩
  | peek n | bytes =>
    obtain ⟨found, _, last⟩ := bind_eq_some_iff.mp done
    cases last
    exact keep ⟨rfl, rfl⟩
  | next n =>
    obtain ⟨⟨reply₁, rb₁⟩, took, last⟩ := bind_eq_some_iff.mp done
    cases last
    exact keep (next_frame took)
  | discard n =>
    obtain ⟨⟨k, rb₁⟩, dropped, last⟩ := bind_eq_some_iff.mp done
    cases last
    exact keep (discard_frame dropped)
  | reset =>
    cases done
    exact keep ⟨rfl, rfl⟩
  | advanceRead n =>
    obtain ⟨rb₁, moved, last⟩ := bind_eq_some_iff.mp done
    cases last
    exact keep (advanceRead_frame moved)
  | kernelFill data =>
    obtain ⟨a, _, rest⟩ := bind_eq_some_iff.mp done
    obtain ⟨rb₁, moved, last⟩ := bind_eq_some_iff.mp rest
    cases last
    have filled : (rb.deposit a data).footing = rb.footing := deposit_footing rb a data
    unfold RingBuffer.advanceWrite at moved
    split_ifs at moved <;> cases moved <;> exact .same rfl filled
  | grow newCap =>
    obtain ⟨⟨rb₁, s₁⟩, grown, last⟩ := bind_eq_some_iff.mp done
    cases last
    exact grow_resized grown
  | growIfUnsufficientFreeSpace =>
    obtain ⟨⟨rb₁, s₁⟩, grown, last⟩ := bind_eq_some_iff.mp done
    cases last
    exact growWhen_resized grown

/-- Any number of operations in a row. -/
def Resizes (source : MemSource σ) (rb : RingBuffer) (s : σ) (rb' : RingBuffer) (s' : σ) : Prop :=
  Relation.ReflTransGen (fun x y : RingBuffer × σ => Resized source x.1 x.2 y.1 y.2)
    (rb, s) (rb', s')

theorem Resized.resizes {s s' : σ} (resized : Resized source rb s rb' s') :
    Resizes source rb s rb' s' :=
  Relation.ReflTransGen.single resized

theorem Filled.resized {data : List UInt8} {s s' : σ} (filled : Filled source data rb s rb' s') :
    Resized source rb s rb' s' := by
  obtain ⟨grown, _, stored, _⟩ := filled
  obtain ⟨footing, size⟩ := store_frame stored
  exact (growWhen_resized grown).then_same size footing

theorem Reads.resizes {chunks : List (List UInt8)} {last : List UInt8} {s s' : σ}
    (reads : Reads source last chunks rb s rb' s') : Resizes source rb s rb' s' := by
  induction reads with
  | last filled => exact filled.resized.resizes
  | chunk filled _ ih => exact Relation.ReflTransGen.head filled.resized ih

/-- A writer only moves the read index. -/
theorem writeTo_resized {written : Int} {err : Option Error}
    {reply : List UInt8 × Int × Option Error} {s : σ}
    (wrote : rb.writeTo written err = some (reply, rb')) : Resized source rb s rb' s := by
  have moved : rb' = rb ∨ ∃ r, rb' = rb.moveRead r := by
    unfold writeTo at wrote
    split_ifs at wrote
    · cases wrote
      exact Or.inl rfl
    · obtain ⟨offered, _, rest⟩ := bind_eq_some_iff.mp wrote
      cases rest
    · obtain ⟨offered, _, rest⟩ := bind_eq_some_iff.mp wrote
      obtain ⟨r, _, rest⟩ := bind_eq_some_iff.mp rest
      cases err with
      | some e =>
        cases rest
        exact Or.inr ⟨r, rfl⟩
      | none =>
        dsimp only at rest
        split_ifs at rest <;> cases rest <;> exact Or.inr ⟨r, rfl⟩
  rcases moved with rfl | ⟨r, rfl⟩
  · exact .same rfl rfl
  · refine .same (moveRead_size rb r) ?_
    rw [footing, moveRead_vm, footing]

end Gain.RingBuffer
