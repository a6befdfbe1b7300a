import Mathlib.Order.Lattice
import Mathlib.Tactic.SplitIfs
import Gain.Errors
import Gain.Foundation.Run

/-! # Batches of completions

`batchSubmitter` waits for a batch of completions whose size follows the number
seen last: `advance` looks the size up in a table, and each wait that times out
takes it one entry down.
-/

namespace Gain

open List

/-- `waitForArray` -/
def waitForArray : List Nat :=
  [1, 32, 64, 96, 128, 256, 384, 512, 768, 1024, 1536, 2048, 3072, 4096, 5120, 6144, 7168, 8192,
    10240]

/-- The batch target; the ring and the timeout play no part in it. -/
structure BatchSubmitter where
  waitForIndex : Nat
  waitFor : Nat
  deriving DecidableEq, Repr

namespace BatchSubmitter

/-- What `SubmitAndWaitTimeout` can return as its error. -/
inductive WaitError where
  | eagain
  | eintr
  | etime
  | other (code : Nat)

/-- The assignment of `waitFor` from the table, undefined out of its range. -/
def aim (index : Nat) : Option BatchSubmitter := do
  let waitFor ← waitForArray[index]?
  return ⟨index, waitFor⟩

/-- `newBatchSubmitter` -/
def newBatchSubmitter : Option BatchSubmitter := aim 0

/-- `submit`, given the error of the wait. -/
def submit (s : BatchSubmitter) : Option WaitError → Option (Option Error × BatchSubmitter)
  | none => some (none, s)
  | some (.other code) =>
    some (some (.wrapped "submitAndWaitTimeout error" (.external code)), s)
  | some .eagain | some .eintr | some .etime =>
    if s.waitForIndex ≠ 0 then (aim (s.waitForIndex - 1)).map (some .skippable, ·)
    else some (some .skippable, s)

/-- The loop of `advance` over the entries of the table from `index` on. -/
def search (n : Nat) : (entries : List Nat) → (index waitForIndex : Nat) → Nat
  | [], _, waitForIndex => waitForIndex
  | entry :: entries, index, waitForIndex =>
    if entry > n then waitForIndex else search n entries (index + 1) index

def advance (s : BatchSubmitter) (n : Nat) : Option BatchSubmitter :=
  aim (search n (waitForArray.drop 1) 1 s.waitForIndex)

inductive Label where
  | submit (err : Option WaitError)
  | advance (n : Nat)

def step (s : BatchSubmitter) : Label → Option BatchSubmitter
  | .submit err => (s.submit err).map Prod.snd
  | .advance n => s.advance n

variable {s s' : BatchSubmitter} {n index : Nat}

/-- The target is the entry of the table at the index. -/
def Aimed (s : BatchSubmitter) : Prop := waitForArray[s.waitForIndex]? = some s.waitFor

theorem aim_eq_some (aimed : aim index = some s) : s.waitForIndex = index ∧ s.Aimed := by
  obtain ⟨waitFor, found, same⟩ := Option.bind_eq_some_iff.mp aimed
  cases same
  exact ⟨rfl, found⟩

theorem aim_of_lt (lt : index < waitForArray.length) :
    ∃ s, aim index = some s ∧ s.waitForIndex = index ∧ s.Aimed := by
  have aimed : aim index = some ⟨index, waitForArray[index]⟩ := by
    unfold aim
    rw [List.getElem?_eq_getElem lt]
    rfl
  exact ⟨_, aimed, aim_eq_some aimed⟩

theorem Aimed.lt (aimed : s.Aimed) : s.waitForIndex < waitForArray.length :=
  (List.getElem?_eq_some_iff.mp aimed).1

/-- The search ends at the last entry not above `n`, when the one it starts behind is not. -/
theorem search_spec (index : Nat) {entry : Nat} {entries : List Nat}
    (sorted : (entry :: entries).Pairwise (· < ·)) (low : entry ≤ n) :
    ∃ i t, search n entries (index + 1) index = index + i ∧ (entry :: entries)[i]? = some t ∧
      t ≤ n ∧ ∀ u ∈ entry :: entries, u ≤ n → u ≤ t := by
  induction entries generalizing entry index with
  | nil =>
    refine ⟨0, entry, rfl, rfl, low, fun u member _ => ?_⟩
    exact (mem_singleton.mp member).le
  | cons next entries ih =>
    obtain ⟨above, sorted'⟩ := pairwise_cons.mp sorted
    by_cases high : next > n
    · refine ⟨0, entry, if_pos high, rfl, low, fun u member below => ?_⟩
      -- every later entry is above `next`
      rcases mem_cons.mp member with rfl | later
      · exact le_rfl
      · rcases mem_cons.mp later with rfl | later
        · omega
        · have := (pairwise_cons.mp sorted').1 u later
          omega
    · obtain ⟨i, t, found, entry', least, greatest⟩ := ih (index + 1) sorted' (not_lt.mp high)
      refine ⟨i + 1, t, ?_, entry', least, fun u member below => ?_⟩
      · rw [search, if_neg high, found]
        omega
      · rcases mem_cons.mp member with rfl | later
        · exact le_trans (above next mem_cons_self).le
            (greatest next mem_cons_self (not_lt.mp high))
        · exact greatest u later below

theorem waitForArray_sorted : waitForArray.Pairwise (· < ·) := by decide

/-- Below the second entry `advance` leaves the index as it was. -/
theorem advance_of_lt (aimed : s.Aimed) (few : n < 32) : s.advance n = some s := by
  have same : search n (waitForArray.drop 1) 1 s.waitForIndex = s.waitForIndex := if_pos few
  unfold advance aim
  rw [same, aimed]
  rfl

/-- From the second entry on `advance` forgets the index. -/
theorem advance_of_le (many : 32 ≤ n) :
    ∃ s', s.advance n = some s' ∧ s'.Aimed ∧ s'.waitFor ≤ n ∧
      ∀ t ∈ waitForArray, t ≤ n → t ≤ s'.waitFor := by
  have sorted := (pairwise_cons.mp waitForArray_sorted).2
  obtain ⟨i, t, found, entry, least, greatest⟩ := search_spec 1 sorted many
  have reached : search n (waitForArray.drop 1) 1 s.waitForIndex = 1 + i :=
    (if_neg (not_lt.mpr many)).trans found
  have entry' : waitForArray[1 + i]? = some t := by
    rw [Nat.add_comm]
    exact entry
  refine ⟨⟨1 + i, t⟩, ?_, entry', least, fun u member below => ?_⟩
  · unfold advance aim
    rw [reached, entry']
    rfl
  · rcases mem_cons.mp member with rfl | later
    · exact le_trans (by decide) (greatest 32 mem_cons_self many)
    · exact greatest u later below

/-- A wait keeps the target or takes it one entry down. -/
theorem Aimed.submit (aimed : s.Aimed) (err : Option WaitError) :
    ∃ res s', s.submit err = some (res, s') ∧ s'.Aimed := by
  have skipped : ∃ res s', (if s.waitForIndex ≠ 0 then
      (aim (s.waitForIndex - 1)).map (some Error.skippable, ·)
      else some (some Error.skippable, s)) = some (res, s') ∧ s'.Aimed := by
    split_ifs with nonzero
    · obtain ⟨s', lower, _, aimed'⟩ :=
        aim_of_lt (lt_of_le_of_lt (Nat.sub_le s.waitForIndex 1) aimed.lt)
      rw [lower]
      exact ⟨_, s', rfl, aimed'⟩
    · exact ⟨_, s, rfl, aimed⟩
  cases err with
  | none => exact ⟨_, s, rfl, aimed⟩
  | some err =>
    cases err with
    | other code => exact ⟨_, s, rfl, aimed⟩
    | eagain | eintr | etime => exact skipped

theorem Aimed.advance (aimed : s.Aimed) (n : Nat) : ∃ s', s.advance n = some s' ∧ s'.Aimed := by
  by_cases few : n < 32
  · exact ⟨s, advance_of_lt aimed few, aimed⟩
  · obtain ⟨s', done, aimed', _⟩ := advance_of_le (not_lt.mp few)
    exact ⟨s', done, aimed'⟩

/-- Every call stays within the table. -/
theorem Aimed.step (aimed : s.Aimed) (label : Label) : ∃ s', s.step label = some s' ∧ s'.Aimed := by
  cases label with
  | submit err =>
    obtain ⟨res, s', done, aimed'⟩ := aimed.submit err
    exact ⟨s', congrArg (Option.map Prod.snd) done, aimed'⟩
  | advance n => exact aimed.advance n

theorem run_aimed {ls : List Label} (made : newBatchSubmitter = some s)
    (ran : run BatchSubmitter.step ls s = some s') : s'.Aimed := by
  apply run_preserves Aimed _ ran (aim_eq_some made).2
  intro s₁ label s₂ done aimed
  obtain ⟨s₃, done', aimed'⟩ := aimed.step label
  cases done.symm.trans done'
  exact aimed'

/-- `t` is the greatest entry of the table that is at most `max n 1`. -/
def Greatest (n t : Nat) : Prop :=
  t ∈ waitForArray ∧ t ≤ max n 1 ∧ ∀ u ∈ waitForArray, u ≤ max n 1 → u ≤ t

theorem thirty_two_le_of_mem : ∀ u ∈ waitForArray.drop 1, 32 ≤ u := by decide

/-- In a small burst the first entry is the right one. -/
theorem greatest_of_lt (few : n < 32) (t : Nat) : Greatest n t ↔ t = 1 := by
  have only : ∀ u ∈ waitForArray, u ≤ max n 1 → u = 1 := by
    intro u member below
    rcases mem_cons.mp member with rfl | later
    · rfl
    · have least := thirty_two_le_of_mem u later
      omega
  constructor
  · rintro ⟨member, below, _⟩
    exact only t member below
  · rintro rfl
    exact ⟨mem_cons_self, le_max_right n 1, fun u member below => (only u member below).le⟩

theorem Aimed.waitFor_eq_one (aimed : s.Aimed) : s.waitFor = 1 ↔ s.waitForIndex = 0 := by
  constructor
  · intro one
    have first : waitForArray[0]? = some 1 := rfl
    have nodup : waitForArray.Nodup := by decide
    apply (List.getElem?_inj aimed.lt nodup).mp
    rw [aimed, one, first]
  · intro zero
    have first : waitForArray[s.waitForIndex]? = some 1 := by
      rw [zero]
      rfl
    exact Option.some.inj (aimed.symm.trans first)

/-- In every reachable state the target is the entry at the index and every call stays within the
table. `advance n` finds the greatest entry that is at most `max n 1` exactly when `n` reaches the
second entry or the index was 0. -/
theorem advance_greatest_iff {ls : List Label} (made : newBatchSubmitter = some s)
    (ran : run BatchSubmitter.step ls s = some s') :
    s'.Aimed ∧ (∀ label, ∃ s₁, s'.step label = some s₁) ∧
    ∀ n, ∃ s₁, s'.advance n = some s₁ ∧
      (Greatest n s₁.waitFor ↔ 32 ≤ n ∨ s'.waitForIndex = 0) := by
  have aimed := run_aimed made ran
  refine ⟨aimed, fun label => ?_, fun n => ?_⟩
  · obtain ⟨s₁, done, _⟩ := aimed.step label
    exact ⟨s₁, done⟩
  · by_cases few : n < 32
    · refine ⟨s', advance_of_lt aimed few, ?_⟩
      rw [greatest_of_lt few, aimed.waitFor_eq_one]
      exact ⟨Or.inr, fun cond => cond.resolve_left (not_le.mpr few)⟩
    · have many := not_lt.mp few
      have bound : max n 1 = n := max_eq_left (by omega)
      obtain ⟨s₁, done, aimed', below, greatest⟩ := advance_of_le (s := s') many
      refine ⟨s₁, done, fun _ => .inl many, fun _ => ⟨mem_of_getElem? aimed', ?_⟩⟩
      rw [bound]
      exact ⟨below, greatest⟩

/-- A burst of 100 completions, then a timeout. -/
theorem advance_greatest_iff_burst : ∃ s s', newBatchSubmitter = some s ∧
    run BatchSubmitter.step [.advance 100, .submit (some .etime)] s = some s' ∧
    s'.waitForIndex = 2 ∧ ∃ s₁, s'.advance 40 = some s₁ ∧ Greatest 40 s₁.waitFor := by
  have ran : run BatchSubmitter.step [.advance 100, .submit (some .etime)] ⟨0, 1⟩ =
      some ⟨2, 64⟩ := rfl
  refine ⟨⟨0, 1⟩, ⟨2, 64⟩, rfl, ran, rfl, ?_⟩
  obtain ⟨s₁, done, greatest⟩ := (advance_greatest_iff rfl ran).2.2 40
  exact ⟨s₁, done, greatest.mpr (.inl (by decide))⟩

/-- After a burst of 100 completions the target stays at 96 when only 5 are seen. -/
theorem advance_not_greatest : ∃ s s' s₁, newBatchSubmitter = some s ∧
    run BatchSubmitter.step [.advance 100] s = some s' ∧ s'.advance 5 = some s₁ ∧
    s₁.waitFor = 96 ∧ ¬ Greatest 5 s₁.waitFor := by
  refine ⟨⟨0, 1⟩, ⟨3, 96⟩, ⟨3, 96⟩, rfl, rfl, rfl, rfl, ?_⟩
  rw [greatest_of_lt (by decide)]
  decide

end BatchSubmitter

end Gain
