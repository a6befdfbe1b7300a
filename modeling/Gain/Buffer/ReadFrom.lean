import Gain.Buffer.Fifo

/-! # Filling the ring buffer from a reader

`ReadFrom` offers the free part of the buffer to a reader, again and again, until the
reader ends. What the reader delivers is appended to the content, unless an empty
buffer is first given nothing: it then counts as full.
-/

namespace Gain

open List Option

namespace Layout

variable {σ : Type} {source : MemSource σ} (l : Layout) {data : List UInt8}

theorem extend_zero (full : l.isEmpty = false) : l.extend 0 = l := by
  have same : (l.w + 0) % l.mem.size = l.w := Nat.mod_eq_of_lt l.w_lt
  obtain ⟨mem, r, w, isEmpty, pos, r_lt, w_lt, empty⟩ := l
  subst full
  simp only [extend, same]

/-- A buffer that holds something may be given nothing. -/
theorem store_extend_content (some' : l.isEmpty = true → data ≠ [])
    (fits : l.count + data.length ≤ l.mem.size) :
    ((l.store data).extend data.length).content = l.content ++ data := by
  cases data with
  | nil =>
    have full : l.isEmpty = false := by
      cases flag : l.isEmpty with
      | false => rfl
      | true => exact absurd rfl (some' flag)
    change ((l.store []).extend 0).content = l.content ++ []
    rw [(l.store []).extend_zero full, l.store_content fits, append_nil]
  | cons b data =>
    have positive : 0 < (b :: data).length := Nat.succ_pos _
    rw [(l.store (b :: data)).extend_content positive fits, l.store_content fits,
      l.store_spare fits]

/-- The whole free part can be offered. -/
theorem toRing_slice_free :
    ∃ bytes, l.toRing.slice l.toRing.w (l.toRing.w + l.toRing.available) = some bytes := by
  have free := l.toRing_slice l.w_lt.le (Nat.sub_le l.mem.size l.count)
  rw [Int.ofNat_sub l.count_le, ← toRing_available] at free
  exact ⟨_, free⟩

theorem goMod_write (n : Nat) :
    goMod (l.toRing.w + n) l.toRing.size = some (((l.w + n) % l.mem.size : Nat) : Int) :=
  goMod_natCast (l.w + n) l.pos

/-- Before every read there is room. -/
theorem growth_of_mirrored (mirrored : source.Mirrored) (s : σ) :
    ∃ (g : Layout) (s₁ : σ),
      l.toRing.growIfUnsufficientFreeSpace source s = some (g.toRing, s₁) ∧
      g.content = l.content := by
  have ready : l.toRing.available < minRead →
      source.Ready (adjustBufferSize source.pageSize (l.count + minRead)) s := by
    intro _
    apply mirrored
    have larger := le_adjustBufferSize source.pageSize_pos (l.count + minRead)
    unfold minRead at larger ⊢
    omega
  obtain ⟨g, s₁, grown, content, _⟩ := l.toRing_growIfUnsufficientFreeSpace ready
  exact ⟨g, s₁, grown, content⟩

end Layout

namespace RingBuffer

section Reader

variable {σ : Type} (source : MemSource σ)

/-- Every answer of the reader fits in the slice it is offered. -/
def Offered : List (List UInt8) → List UInt8 → RingBuffer → σ → Prop
  | [], last, rb, s => ∀ rb₁ s₁, rb.growIfUnsufficientFreeSpace source s = some (rb₁, s₁) →
      last.length ≤ rb₁.available
  | chunk :: chunks, last, rb, s =>
    ∀ rb₁ s₁, rb.growIfUnsufficientFreeSpace source s = some (rb₁, s₁) →
      chunk.length ≤ rb₁.available ∧
      ∀ rb₂ w, rb₁.store chunk = some rb₂ → goMod (rb₂.w + chunk.length) rb₂.size = some w →
        Offered chunks last { rb₂ with w := w, isEmpty := false } s₁

/-- The error `ReadFrom` returns for the one that ended the reader. -/
def readError (final : Error) : Option Error :=
  if final = .eof then none else some (.wrapped "reader Read error" final)

end Reader

end RingBuffer

namespace Layout

variable {σ : Type} {source : MemSource σ} {chunks : List (List UInt8)} {last : List UInt8}
  {rb : RingBuffer} {g : Layout}

/-- An empty buffer that is given nothing counts as full. -/
theorem extend_zero_count (g : Layout) (empty : g.isEmpty = true) :
    ((g.store []).extend 0).count = g.mem.size := by
  have same : g.r = (g.w + 0) % g.mem.size := by
    rw [Nat.add_zero, Nat.mod_eq_of_lt g.w_lt, g.empty empty]
  unfold count extend store
  simp only [← same, if_pos, Bool.false_eq_true, if_false]

/-- After the first read the buffer is never empty, so what is delivered later is appended to
what the first read leaves. -/
theorem readFrom_grown (mirrored : source.Mirrored) (final : Error) {s s₁ : σ}
    (grown : rb.growIfUnsufficientFreeSpace source s = some (g.toRing, s₁))
    (offered : RingBuffer.Offered source chunks last rb s) :
    g.count + (chunks.headD last).length ≤ g.mem.size ∧
    ∃ (l : Layout) (s' : σ), rb.readFrom source chunks last final s =
        some ((((chunks.flatten ++ last).length : Int), RingBuffer.readError final), l.toRing, s') ∧
      l.content = ((g.store (chunks.headD last)).extend (chunks.headD last).length).content ++
        (chunks ++ [last]).tail.flatten := by
  induction chunks generalizing rb g s s₁ with
  | nil =>
    have short := offered g.toRing s₁ grown
    have fits : g.count + last.length ≤ g.mem.size := by
      rw [g.toRing_available] at short
      have := g.count_le
      omega
    obtain ⟨bytes, free⟩ := g.toRing_slice_free
    refine ⟨fits, (g.store last).extend last.length, s₁, ?_, (append_nil _).symm⟩
    unfold RingBuffer.readFrom
    simp only [grown, free, bind_eq_bind, bind_some, if_neg (not_lt.mpr short),
      g.toRing_store fits, (g.store last).goMod_write, flatten_nil, nil_append]
    rfl
  | cons chunk chunks ih =>
    obtain ⟨short, next⟩ := offered g.toRing s₁ grown
    have fits : g.count + chunk.length ≤ g.mem.size := by
      rw [g.toRing_available] at short
      have := g.count_le
      omega
    obtain ⟨bytes, free⟩ := g.toRing_slice_free
    obtain ⟨g₁, s₂, grown₁, content₁⟩ :=
      ((g.store chunk).extend chunk.length).growth_of_mirrored mirrored s₁
    have held : g₁.isEmpty = true → chunks.headD last ≠ [] := by
      rw [← g₁.content_eq_nil_iff, content₁, content_eq_nil_iff]
      intro absent
      cases absent
    obtain ⟨fits₁, l, s', rest, content⟩ :=
      ih grown₁ (next _ _ (g.toRing_store fits) ((g.store chunk).goMod_write _))
    refine ⟨fits, l, s', ?_, ?_⟩
    · have again : RingBuffer.readFrom source { (g.store chunk).toRing with
          w := (((g.store chunk).w + chunk.length) % (g.store chunk).mem.size : Nat)
          isEmpty := false } chunks last final s₁ = _ := rest
      unfold RingBuffer.readFrom
      simp only [grown, free, bind_eq_bind, bind_some, if_neg (not_lt.mpr short),
        g.toRing_store fits, (g.store chunk).goMod_write, again]
      simp only [flatten_cons, append_assoc, length_append]
      rfl
    · rw [content, g₁.store_extend_content held fits₁, content₁, append_assoc]
      cases chunks <;> rfl

/-- What is delivered begins with the first answer. -/
theorem flatten_headD (chunks : List (List UInt8)) (last : List UInt8) :
    chunks.headD last ++ (chunks ++ [last]).tail.flatten = chunks.flatten ++ last := by
  cases chunks with
  | nil => exact append_nil last
  | cons chunk chunks =>
    rw [flatten_cons, append_assoc]
    change chunk ++ (chunks ++ [last]).flatten = _
    rw [flatten_append, flatten_singleton]

/-- What is delivered is appended to the content that the first growth leaves. -/
theorem readFrom_of_growth (mirrored : source.Mirrored) (final : Error) {s s₁ : σ}
    (grown : rb.growIfUnsufficientFreeSpace source s = some (g.toRing, s₁))
    (offered : RingBuffer.Offered source chunks last rb s)
    (delivers : g.isEmpty = true → chunks.headD last ≠ []) :
    ∃ (l : Layout) (s' : σ), rb.readFrom source chunks last final s =
        some ((((chunks.flatten ++ last).length : Int), RingBuffer.readError final), l.toRing, s') ∧
      l.content = g.content ++ (chunks.flatten ++ last) := by
  obtain ⟨fits, l, s', read, content⟩ := readFrom_grown mirrored final grown offered
  refine ⟨l, s', read, ?_⟩
  rw [content, g.store_extend_content delivers fits, append_assoc, flatten_headD]

end Layout

namespace RingBuffer

variable {σ : Type} {source : MemSource σ} {rb rb' : RingBuffer} {s s' : σ}

/-- A buffer made with size 0, which has no memory yet. -/
structure Unallocated (rb : RingBuffer) : Prop where
  vm : rb.vm = none
  size : rb.size = 0
  r : rb.r = 0
  w : rb.w = 0
  isEmpty : rb.isEmpty = true

/-- The states of a buffer. -/
def Sound (rb : RingBuffer) : Prop := (∃ l : Layout, rb = l.toRing) ∨ rb.Unallocated

namespace Unallocated

theorem buffered (none' : rb.Unallocated) : rb.buffered = 0 := by
  simp [RingBuffer.buffered, none'.r, none'.w, none'.isEmpty]

theorem available (none' : rb.Unallocated) : rb.available = 0 := by
  simp [RingBuffer.available, none'.r, none'.w, none'.isEmpty, none'.size]

/-- The first growth gives the buffer its memory. -/
theorem grow (none' : rb.Unallocated) (mirrored : source.Mirrored) {newCap : Int}
    (pos : 0 < newCap) (s : σ) : ∃ (l : Layout) (s₁ : σ),
      rb.grow source newCap s = some (l.toRing, s₁) ∧ l.content = [] ∧
      newCap ≤ l.mem.size := by
  have larger := le_adjustBufferSize source.pageSize_pos newCap
  obtain ⟨m, s₁, got, sized⟩ := mirrored (adjustBufferSize source.pageSize newCap) s (by omega)
  have positive : 0 < m.size := by omega
  refine ⟨⟨m, 0, 0, true, positive, positive, positive, fun _ => rfl⟩, s₁, ?_,
    (Layout.content_eq_nil_iff _).mpr rfl, larger.trans sized.ge⟩
  have nothing : rb.readUpTo (2 * (m.size : Int)) = some ((0, some .isEmpty, []), rb) := by
    rw [readUpTo, if_neg (by omega), if_pos none'.isEmpty]
  have copied : m.copyAt? 0 [] = some m := by
    rw [VirtualMem.copyAt?, if_pos (by omega), take_nil]
    rfl
  rw [← sized] at got
  unfold RingBuffer.grow
  simp only [← sized, got, nothing, copied, none'.buffered, none'.vm, none'.isEmpty,
    bind_eq_bind, bind_some]
  rfl

theorem growIfUnsufficientFreeSpace (none' : rb.Unallocated) (mirrored : source.Mirrored)
    (s : σ) : ∃ (l : Layout) (s₁ : σ),
      rb.growIfUnsufficientFreeSpace source s = some (l.toRing, s₁) ∧ l.content = [] ∧
      minRead ≤ l.mem.size := by
  have room : rb.available < minRead := by
    rw [none'.available]
    decide
  obtain ⟨l, s₁, grown, content, large⟩ :=
    none'.grow mirrored (show (0 : Int) < minRead by decide) s
  refine ⟨l, s₁, ?_, content, large⟩
  rw [RingBuffer.growIfUnsufficientFreeSpace, growWhen, if_pos (by simpa using room),
    none'.buffered, Int.zero_add]
  exact grown

end Unallocated

theorem newMagicBuffer_sound (mirrored : source.Mirrored) {size : Int} (nonneg : 0 ≤ size) (s : σ) :
    (newMagicBuffer source size s).1.Sound := by
  by_cases zero : size = 0
  · refine Or.inr ?_
    rw [newMagicBuffer, if_pos zero]
    exact ⟨rfl, rfl, rfl, rfl, rfl⟩
  · obtain ⟨l, same, _⟩ := newMagicBuffer_toRing mirrored (lt_of_le_of_ne nonneg (Ne.symm zero)) s
    exact Or.inl ⟨l, same⟩

/-- A growth before a read keeps the content of any buffer. -/
theorem Sound.growth (sound : rb.Sound) (mirrored : source.Mirrored) (s : σ) :
    ∃ (g : Layout) (s₁ : σ), rb.growIfUnsufficientFreeSpace source s = some (g.toRing, s₁) ∧
      rb.bytes = some g.content ∧ rb.buffered = g.count ∧ g.isEmpty = rb.isEmpty := by
  rcases sound with ⟨l, rfl⟩ | none'
  · obtain ⟨g, s₁, grown, content⟩ := l.growth_of_mirrored mirrored s
    refine ⟨g, s₁, grown, ?_, ?_, ?_⟩
    · rw [content, l.toRing_bytes]
    · rw [l.toRing_buffered, ← l.content_length, ← content, g.content_length]
    · rw [l.toRing_isEmpty, Bool.eq_iff_iff, ← g.content_eq_nil_iff, content, l.content_eq_nil_iff]
  · obtain ⟨g, s₁, grown, content, _⟩ := none'.growIfUnsufficientFreeSpace mirrored s
    refine ⟨g, s₁, grown, ?_, ?_, ?_⟩
    · rw [content, RingBuffer.bytes, if_pos none'.isEmpty]
    · rw [none'.buffered, ← g.content_length, content]
      rfl
    · rw [none'.isEmpty, ← g.content_eq_nil_iff]
      exact content

/-- `ReadFrom` appends exactly what the reader delivers, whatever the reader does, unless an
empty buffer is first given nothing; and then it never does, since the buffer counts as full. -/
theorem readFrom_appends_iff_delivering (mirrored : source.Mirrored) (sound : rb.Sound) (s : σ)
    {chunks : List (List UInt8)} {last : List UInt8} (final : Error)
    (offered : Offered source chunks last rb s) :
    (∃ content rb' s', rb.bytes = some content ∧
      rb.readFrom source chunks last final s =
        some ((((chunks.flatten ++ last).length : Int), readError final), rb', s') ∧
      rb'.Sound ∧ rb'.bytes = some (content ++ (chunks.flatten ++ last)) ∧
      rb'.buffered = rb.buffered + (chunks.flatten ++ last).length) ↔
    (rb.isEmpty = true → chunks.headD last ≠ []) := by
  obtain ⟨g, s₁, grown, before, count, flag⟩ := sound.growth mirrored s
  rw [← flag]
  constructor
  · rintro ⟨content, rb', s', _, read, _, _, buffered⟩ empty nothing
    obtain ⟨_, l, s'', read', result⟩ := Layout.readFrom_grown mirrored final grown offered
    cases read.symm.trans read'
    rw [nothing] at result
    have total := congrArg List.length result
    rw [length_append, l.content_length, Layout.content_length, length_nil,
      g.extend_zero_count empty] at total
    rw [l.toRing_buffered, count, g.count_of_isEmpty empty, ← Layout.flatten_headD, nothing,
      nil_append] at buffered
    have positive := g.pos
    omega
  · intro delivers
    obtain ⟨l, s', read, content⟩ := Layout.readFrom_of_growth mirrored final grown offered delivers
    refine ⟨g.content, l.toRing, s', before, read, Or.inl ⟨l, rfl⟩, ?_, ?_⟩
    · rw [l.toRing_bytes, content]
    · rw [l.toRing_buffered, count, ← l.content_length, content, length_append, g.content_length]
      rfl

/-- An empty buffer is given two bytes, nothing, and a third byte before the reader fails. -/
theorem readFrom_appends_iff_delivering_pieces : ∃ content rb' s',
    (newMagicBuffer freshSource 0 0).1.bytes = some content ∧
    (newMagicBuffer freshSource 0 0).1.readFrom freshSource [[1, 2], []] [3] .shortBuffer 0 =
      some ((3, some (.wrapped "reader Read error" .shortBuffer)), rb', s') ∧
    rb'.Sound ∧ rb'.bytes = some (content ++ [1, 2, 3]) ∧ rb'.buffered =
      (newMagicBuffer freshSource 0 0).1.buffered + 3 := by
  have mirrored : freshSource.Mirrored := by
    intro size s pos
    exact ⟨_, _, rfl, Int.toNat_of_nonneg pos.le⟩
  have offered : Offered freshSource [[1, 2], []] [3] (newMagicBuffer freshSource 0 0).1 0 := by
    intro rb₁ s₁ grown
    cases grown
    refine ⟨by decide, fun rb₂ w stored moved rb₃ s₃ grown => ?_⟩
    cases stored
    cases moved
    cases grown
    refine ⟨by decide, fun rb₄ w stored moved rb₅ s₅ grown => ?_⟩
    cases stored
    cases moved
    cases grown
    decide
  exact (readFrom_appends_iff_delivering mirrored (newMagicBuffer_sound mirrored le_rfl 0) 0
    .shortBuffer offered).mpr (fun _ => by decide)

/-- A reader that has nothing for an empty buffer leaves it full. -/
theorem readFrom_not_appends : ∃ rb' s',
    (newMagicBuffer freshSource 1 0).1.readFrom freshSource [] [] .eof 1 =
      some ((0, none), rb', s') ∧
    (newMagicBuffer freshSource 1 0).1.buffered = 0 ∧ rb'.buffered = 4096 :=
  ⟨_, _, rfl, rfl, rfl⟩

end RingBuffer

end Gain
