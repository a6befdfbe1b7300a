import Gain.Buffer.Resize
import Gain.Foundation.Run
import Gain.Pool.Ledger

/-! # Ring buffers that share the built-in memory pool

A ring buffer believes the size it asked for, so what matters is whether each
request is answered with a memory of the size it was rounded to.
-/

namespace Gain

open List Option VirtualMem

/-- The ring buffers and the memories handed out so far, and the pool they share. -/
structure Tenants where
  ledger : Ledger
  rings : List RingBuffer
  held : List VirtualMem

namespace Tenants

def start (choice : Nat → Nat → Option Nat) : Tenants :=
  ⟨⟨⟨fun k => SyncPool.empty (choice k), 0⟩, [], []⟩, [], []⟩

inductive Call where
  | newMagicBuffer (size : Int)
  | ringOp (i : Nat) (op : RingBuffer.Op)
  | releaseBytes (i : Nat)
  | get (size : Int)
  | put (i : Nat)

section Run

variable (pageSize : Nat) (pos : 0 < pageSize)

/-- A call that panics, or names no ring buffer or memory, has no result. A
caller keeps its reference to what it released. -/
def exec (t : Tenants) : Call → Option Tenants
  | .newMagicBuffer size =>
    let (rb, ledger) := RingBuffer.newMagicBuffer (Ledger.source pageSize pos) size t.ledger
    some { t with rings := t.rings ++ [rb], ledger := ledger }
  | .ringOp i op => do
    let rb ← t.rings[i]?
    let (_, rb, ledger) ← op.exec (Ledger.source pageSize pos) rb t.ledger
    return { t with rings := t.rings.set i rb, ledger := ledger }
  | .releaseBytes i => do
    let rb ← t.rings[i]?
    let ledger ← rb.releaseBytes (Ledger.source pageSize pos) t.ledger
    return { t with ledger := ledger }
  | .get size =>
    let (m, ledger) := (Ledger.source pageSize pos).get size t.ledger
    some { t with held := t.held ++ m.toList, ledger := ledger }
  | .put i => do
    let m ← t.held[i]?
    return { t with ledger := (Ledger.source pageSize pos).put m t.ledger }

end Run

/-- The buffer's size is the period of its memory. -/
def Fits (rb : RingBuffer) : Prop := ∀ m, rb.vm = some m → rb.size = m.size

/-- Every request so far was answered exactly, and every buffer fits its memory. -/
def Matched (pageSize : Nat) (t : Tenants) : Prop :=
  (∀ q ∈ t.ledger.requests, q.Exact pageSize) ∧ ∀ rb ∈ t.rings, Fits rb

variable {pageSize : Nat} {pos : 0 < pageSize} {rb rb' : RingBuffer} {l l' : Ledger}
  {t t' : Tenants}

theorem fits_of_footing {a n : Nat} (footing : rb.footing = some (a, n)) (size : rb.size = n) :
    Fits rb := by
  intro m present
  rw [RingBuffer.footing, present, map_some] at footing
  cases footing
  exact size

theorem Fits.of_footing (fits : Fits rb) (footing : rb'.footing = rb.footing)
    (size : rb'.size = rb.size) : Fits rb' := by
  intro m present
  have before : rb.footing = some (m.addr, m.size) := by
    rw [← footing, RingBuffer.footing, present, map_some]
  obtain ⟨m₀, present₀, same⟩ := map_eq_some_iff.mp before
  rw [size, fits m₀ present₀, (Prod.mk.inj same).2]

/-- A memory asked for by a ring buffer, whose request is already rounded, has that size. -/
theorem size_of_exact (pos : 0 < pageSize) {m : VirtualMem} {cap : Int} {q : Request}
    (got : l.get pageSize (adjustBufferSize pageSize cap) = (some m, l'))
    (size : q.size = adjustBufferSize pageSize cap) (answer : q.answer = some m.size)
    (same : q.Exact pageSize) : adjustBufferSize pageSize cap = m.size := by
  obtain ⟨n, answered, rounded⟩ := same (size ▸ Ledger.pos_of_get got)
  rw [answer] at answered
  cases answered
  rw [rounded, size, adjustBufferSize_idem pos]

/-- The requests of an operation are appended, and if they are exact the buffer
still fits its memory. -/
theorem fits_of_resized (resized : RingBuffer.Resized (Ledger.source pageSize pos) rb l rb' l') :
    ∃ made, l'.requests = l.requests ++ made ∧
      (∀ q ∈ made, q.Uniform pageSize → q.Exact pageSize) ∧
      (Fits rb → (∀ q ∈ made, q.Exact pageSize) → Fits rb') := by
  cases resized with
  | same size footing =>
    exact ⟨[], (append_nil _).symm, by simp, fun fits _ => fits.of_footing footing size⟩
  | @grown newCap m l₁ got size footing =>
    obtain ⟨q, made, asked, answer, uniform⟩ := Ledger.get_spec pos got
    refine ⟨[q], ?_, ?_, fun _ exact' => ?_⟩
    · cases rb.vm with
      | none | some _ => exact made
    · intro q' member
      rw [mem_singleton.mp member]
      exact uniform
    · refine fits_of_footing footing (size.trans ?_)
      exact size_of_exact pos got asked answer (exact' q (mem_singleton_self q))

/-- A new buffer has a memory of the size asked for. -/
theorem newMagicBuffer_fits (pos : 0 < pageSize) (size : Int) (l : Ledger) :
    ∃ made, (RingBuffer.newMagicBuffer (Ledger.source pageSize pos) size l).2.requests =
        l.requests ++ made ∧
      (∀ q ∈ made, q.Uniform pageSize → q.Exact pageSize) ∧
      ((∀ q ∈ made, q.Exact pageSize) →
        Fits (RingBuffer.newMagicBuffer (Ledger.source pageSize pos) size l).1) := by
  unfold RingBuffer.newMagicBuffer
  split_ifs with zero
  · exact ⟨[], (append_nil _).symm, by simp, fun _ m present => nomatch present⟩
  · change ∃ made, (l.get pageSize (adjustBufferSize pageSize size)).2.requests = _ ∧ _ ∧
      (_ → Fits ⟨(l.get pageSize (adjustBufferSize pageSize size)).1, _, 0, 0, true⟩)
    rcases got : l.get pageSize (adjustBufferSize pageSize size) with ⟨answer, l'⟩
    obtain ⟨q, made, asked, given, uniform⟩ := Ledger.get_spec pos got
    refine ⟨[q], made, ?_, fun exact' m present => ?_⟩
    · intro q' member
      rw [mem_singleton.mp member]
      exact uniform
    · change answer = some m at present
      subst present
      exact size_of_exact pos got asked given (exact' q (mem_singleton_self q))

/-- An operation of a ring buffer takes memories from the pool and releases them to it. -/
theorem filed_of_resized (resized : RingBuffer.Resized (Ledger.source pageSize pos) rb l rb' l')
    (filed : l.Filed pageSize) : l'.Filed pageSize := by
  cases resized with
  | same _ _ => exact filed
  | grown got _ _ =>
    have taken := filed.get pos got
    cases rb.vm with
    | none => exact taken
    | some old => exact taken.put pos old

theorem newMagicBuffer_filed (pos : 0 < pageSize) (size : Int) (filed : l.Filed pageSize) :
    (RingBuffer.newMagicBuffer (Ledger.source pageSize pos) size l).2.Filed pageSize := by
  unfold RingBuffer.newMagicBuffer
  split_ifs with zero
  · exact filed
  · exact filed.get pos rfl

/-- The ledger is in order, and the buffers fit if all requests were answered exactly. -/
structure Sound (pageSize : Nat) (t : Tenants) : Prop where
  filed : t.ledger.Filed pageSize
  fits : (∀ q ∈ t.ledger.requests, q.Exact pageSize) → ∀ rb ∈ t.rings, Fits rb

/-- A call keeps the ledger in order and appends its requests; the buffers have to fit if
those are exact. -/
theorem Sound.of_append (sound : t.Sound pageSize) {made : List Request}
    (filed : t'.ledger.Filed pageSize) (appended : t'.ledger.requests = t.ledger.requests ++ made)
    (fits : (∀ rb ∈ t.rings, Fits rb) → (∀ q ∈ made, q.Exact pageSize) → ∀ rb ∈ t'.rings, Fits rb) :
    t'.Sound pageSize := by
  refine ⟨filed, fun exact' => ?_⟩
  rw [appended] at exact'
  refine fits (sound.fits fun q member => exact' q (mem_append_left _ member)) ?_
  exact fun q member => exact' q (mem_append_right _ member)

/-- A call of a tenant keeps the memories apart. -/
theorem exec_sound {call : Call} (done : t.exec pageSize pos call = some t')
    (sound : t.Sound pageSize) : t'.Sound pageSize := by
  cases call with
  | newMagicBuffer size =>
    cases done
    obtain ⟨made, appended, _, fits⟩ := newMagicBuffer_fits pos size t.ledger
    refine sound.of_append (newMagicBuffer_filed pos size sound.filed) appended
      fun old new rb member => ?_
    rcases mem_append.mp member with before | added
    · exact old rb before
    · rw [mem_singleton.mp added]
      exact fits new
  | ringOp i op =>
    obtain ⟨rb, found, rest⟩ := bind_eq_some_iff.mp done
    obtain ⟨⟨reply, rb', l'⟩, ran, last⟩ := bind_eq_some_iff.mp rest
    cases last
    have resized := RingBuffer.Op.exec_resized ran
    obtain ⟨made, appended, _, fits⟩ := fits_of_resized resized
    refine sound.of_append (filed_of_resized resized sound.filed) appended
      fun old new rb₁ member => ?_
    rcases mem_or_eq_of_mem_set member with before | rfl
    · exact old rb₁ before
    · exact fits (old rb (mem_of_getElem? found)) new
  | releaseBytes i =>
    obtain ⟨rb, found, rest⟩ := bind_eq_some_iff.mp done
    obtain ⟨l', released, last⟩ := bind_eq_some_iff.mp rest
    obtain ⟨m, present, rfl⟩ := map_eq_some_iff.mp released
    cases last
    exact ⟨sound.filed.put pos m, sound.fits⟩
  | get size =>
    cases done
    have got : t.ledger.get pageSize size = _ := rfl
    obtain ⟨q, made, _⟩ := Ledger.get_spec pos got
    exact sound.of_append (sound.filed.get pos got) made fun old _ => old
  | put i =>
    obtain ⟨m, found, last⟩ := bind_eq_some_iff.mp done
    cases last
    exact ⟨sound.filed.put pos m, sound.fits⟩

theorem start_sound (choice : Nat → Nat → Option Nat) : (start choice).Sound pageSize where
  filed := ⟨fun _ _ member => absurd member not_mem_nil, fun _ member => absurd member not_mem_nil⟩
  fits _ _ member := absurd member not_mem_nil

/-- In every run in which no request comes after the release of a size that is filed where it
looks, every request is answered with a memory of the rounded size and every ring buffer has
the size of its memory. -/
theorem run_matched_of_apart (choice : Nat → Nat → Option Nat) (calls : List Call)
    (t : Tenants) (ran : run (exec pageSize pos) calls (start choice) = some t)
    (apart : ∀ q ∈ t.ledger.requests, q.Apart pageSize) : t.Matched pageSize := by
  have sound := run_preserves (Sound pageSize) (fun _ _ _ done => exec_sound done) ran
    (start_sound choice)
  have exact' : ∀ q ∈ t.ledger.requests, q.Exact pageSize :=
    fun q member => sound.filed.exact' q member (apart q member)
  exact ⟨exact', sound.fits exact'⟩

/-- Two pages, three pages and four pages: what is released is taken again, and the memory
of three pages is not in the class of four. -/
theorem run_matched_of_apart_pages :
    ∃ t, run (exec 4096 (by decide)) [.newMagicBuffer 5000, .releaseBytes 0,
        .newMagicBuffer 8192, .newMagicBuffer 12288, .releaseBytes 2, .newMagicBuffer 16384]
        (start fun _ _ => some 0) = some t ∧
      t.ledger.released = [8192, 12288] ∧ t.Matched 4096 := by
  obtain ⟨t, ran, sizes, each⟩ : ∃ t, run (exec 4096 (by decide)) [.newMagicBuffer 5000,
        .releaseBytes 0, .newMagicBuffer 8192, .newMagicBuffer 12288, .releaseBytes 2,
        .newMagicBuffer 16384] (start fun _ _ => some 0) = some t ∧
      t.ledger.released = [8192, 12288] ∧ ∀ q ∈ t.ledger.requests, q.Apart 4096 := by
    exact exists_run_from (by decide)
  exact ⟨t, ran, sizes, run_matched_of_apart _ _ _ ran each⟩

/-- A memory of three pages is released to the class of two pages, and a buffer
of two pages is given it. -/
theorem run_not_matched :
    ∃ t, run (exec 4096 (by decide)) [.newMagicBuffer 12288, .releaseBytes 0,
        .newMagicBuffer 8192] (start fun _ _ => some 0) = some t ∧ ¬ t.Matched 4096 := by
  refine ⟨_, rfl, fun matched => ?_⟩
  have clash := matched.2 _ (mem_cons_of_mem _ (mem_singleton_self _)) _ rfl
  exact absurd clash (by decide)

end Tenants

end Gain
