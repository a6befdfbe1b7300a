import Gain.Stack.KeyPool
import Gain.Stack.Linear
import Gain.Worker.State

/-! # The key pool is linearizable

Whatever goroutines call `get` and `put`, they get the keys that the pool of the worker's
model would give to one caller after the other. A `get` that takes a key from the stack
and a `put` take effect at their swaps. A `get` that finds the stack empty takes its key
from the counter later, when the stack may be empty no more, and others may have been at
the counter before it. It has taken effect at a moment when the stack was empty, after it
was called and after the key before its own was taken.
-/

namespace Gain

open Function List LockFreeStack Option

inductive KeyPoolOp where
  | get
  | put (key : Nat)

/-- The pool of a single caller; a `put` has no reply. -/
def KeyPoolOp.apply (p : KeyPool) : KeyPoolOp → Option Nat × KeyPool
  | .get => (some p.get.1, p.get.2)
  | .put key => (none, p.put key)

/-- The pool with a counter that does not come round. -/
def KeyPoolOp.count (p : KeyPool) : KeyPoolOp → Option Nat × KeyPool
  | .get =>
    match p.stack with
    | [] => (some p.nextKey, { p with nextKey := p.nextKey + 1 })
    | 0 :: rest => (some p.nextKey, ⟨rest, p.nextKey + 1⟩)
    | key :: rest => (some key, { p with stack := rest })
  | .put key => (none, p.put key)

/-! ## The counter of the sequential pool -/

namespace KeyPool

variable {p p' : KeyPool} {stack stack' : List Nat} {count m : Nat}
  {log : List (Entry KeyPoolOp (Option Nat))}

theorem nextKey_le_count (p : KeyPool) (op : KeyPoolOp) :
    p.nextKey ≤ (KeyPoolOp.count p op).2.nextKey := by
  cases op with
  | put key => exact le_rfl
  | get =>
    unfold KeyPoolOp.count
    dsimp only
    split <;> simp

theorem nextKey_le (replays : Replays KeyPoolOp.count log p p') : p.nextKey ≤ p'.nextKey := by
  induction log generalizing p with
  | nil =>
    cases replays
    exact le_rfl
  | cons e log ih => exact (nextKey_le_count p e.op).trans (ih replays.2)

/-- A call that leaves the counter alone does not depend on it. -/
theorem count_frame {op : KeyPoolOp}
    (same : (KeyPoolOp.count ⟨stack, count⟩ op).2 = ⟨stack', count⟩) (m : Nat) :
    KeyPoolOp.count ⟨stack, m⟩ op = ((KeyPoolOp.count ⟨stack, count⟩ op).1, ⟨stack', m⟩) := by
  cases op with
  | put key =>
    have pushed : key :: stack = stack' := congrArg KeyPool.stack same
    subst pushed
    rfl
  | get =>
    have next := congrArg KeyPool.nextKey same
    cases stack with
    | nil => exact absurd next (Nat.succ_ne_self count)
    | cons key rest =>
      cases key with
      | zero => exact absurd next (Nat.succ_ne_self count)
      | succ key =>
        have popped : rest = stack' := congrArg KeyPool.stack same
        subst popped
        rfl

/-- Calls that leave the counter alone do not depend on it. -/
theorem replays_frame (replays : Replays KeyPoolOp.count log ⟨stack, count⟩ ⟨stack', count⟩)
    (m : Nat) : Replays KeyPoolOp.count log ⟨stack, m⟩ ⟨stack', m⟩ := by
  induction log generalizing stack with
  | nil =>
    have same : stack = stack' := congrArg KeyPool.stack replays
    subst same
    rfl
  | cons e log ih =>
    obtain ⟨reply, rest⟩ := replays
    have least := nextKey_le_count ⟨stack, count⟩ e.op
    have most := nextKey_le rest
    obtain ⟨middle, here⟩ : ∃ middle, (KeyPoolOp.count ⟨stack, count⟩ e.op).2 = ⟨middle, count⟩ :=
      ⟨_, congrArg (KeyPool.mk _) (le_antisymm most least)⟩
    have moved := count_frame here m
    rw [here] at rest
    refine ⟨?_, ?_⟩
    · rw [moved]
      exact reply
    · rw [moved]
      exact ih rest

theorem count_cons {key : Nat} (nonzero : key ≠ 0) :
    KeyPoolOp.count ⟨key :: stack, count⟩ .get = (some key, ⟨stack, count⟩) := by
  cases key with
  | zero => exact absurd rfl nonzero
  | succ key => rfl

/-- The pool whose counter has the 64 bits of the code. -/
def wrapped (p : KeyPool) : KeyPool := ⟨p.stack, p.nextKey % 2 ^ 64⟩

/-- Until the counter has come round there is no difference. -/
theorem apply_wrapped (op : KeyPoolOp) (fits : (KeyPoolOp.count p op).2.nextKey ≤ 2 ^ 64) :
    KeyPoolOp.apply p.wrapped op =
      ((KeyPoolOp.count p op).1, (KeyPoolOp.count p op).2.wrapped) := by
  obtain ⟨stack, count⟩ := p
  cases op with
  | put key => rfl
  | get =>
    cases stack with
    | nil =>
      have within : count % 2 ^ 64 = count := Nat.mod_eq_of_lt fits
      simp only [KeyPoolOp.apply, KeyPool.get, wrapped, within]
      rfl
    | cons key rest =>
      cases key with
      | zero =>
        have within : count % 2 ^ 64 = count := Nat.mod_eq_of_lt fits
        simp only [KeyPoolOp.apply, KeyPool.get, wrapped, within]
        rfl
      | succ key => rfl

/-- The log is one of the 64-bit counter as well. -/
theorem replays_wrapped (replays : Replays KeyPoolOp.count log p p') (fits : p'.nextKey ≤ 2 ^ 64) :
    Replays KeyPoolOp.apply log p.wrapped p'.wrapped := by
  induction log generalizing p with
  | nil =>
    cases replays
    rfl
  | cons e log ih =>
    obtain ⟨reply, rest⟩ := replays
    have same := apply_wrapped e.op ((nextKey_le rest).trans fits)
    refine ⟨?_, ?_⟩
    · rw [same]
      exact reply
    · rw [same]
      exact ih rest

end KeyPool

/-! ## The log of the pool -/

namespace LockFreeKeyPool

/-- What the callers of the pool see of a step. A key that `get` returns is the one held last. -/
def see (p : LockFreeKeyPool) (label : KeyPoolLabel) (p' : LockFreeKeyPool) :
    List (Event KeyPoolOp (Option Nat)) :=
  match label with
  | .get i => [.call i .get]
  | .put i key _ => [.call i (.put key.toNat)]
  | .advance i =>
    match p.stack.stage i with
    | .answered _ => [.ret i ((p'.held i).head?.map UInt64.toNat)]
    | .counting => [.ret i none]
    | _ => []

/-- What a goroutine at this stage has called, and the reply if the call has taken effect. -/
inductive Accords : Stage UInt64 → Option (Pending KeyPoolOp (Option Nat)) → Prop
  | outside : Accords .outside none
  | popping {id : Nat} : Accords .popping (some ⟨id, .get, none⟩)
  | holding {id : Nat} {key : UInt64} :
      Accords (.holding (some key)) (some ⟨id, .get, some (some key.toNat)⟩)
  | found {id : Nat} {key : UInt64} :
      Accords (.answered (some key)) (some ⟨id, .get, some (some key.toNat)⟩)
  | nothing {id : Nat} : Accords (.answered none) (some ⟨id, .get, none⟩)
  | pushing {id : Nat} {key : UInt64} :
      Accords (.pushing (some key)) (some ⟨id, .put key.toNat, none⟩)
  | counting {id key : Nat} : Accords .counting (some ⟨id, .put key, some none⟩)

/-- The record of the pool. Whoever was answered without a key has met an empty stack. -/
abbrev Recorded (p : LockFreeKeyPool) : Option Nat → List (Event KeyPoolOp (Option Nat)) →
    List (Entry KeyPoolOp (Option Nat)) → (Nat → Option (Pending KeyPoolOp (Option Nat))) →
    KeyPool → Prop :=
  Record KeyPoolOp.count ⟨[], 2⟩ (fun p => p.stack = [])
    (fun j => Accords (p.stack.stage j)) fun j => p.stack.stage j = .answered none

/-- The stack was empty when the last key was taken from the counter. -/
def Drawn (log : List (Entry KeyPoolOp (Option Nat))) (count : Nat) : Prop :=
  ∃ before after, log = before ++ after ∧ Replays KeyPoolOp.count before ⟨[], 2⟩ ⟨[], count⟩

/-- The pool with the log of what its callers have seen. The counter of the sequential pool does
not come round. -/
structure Logged (h : List (Event KeyPoolOp (Option Nat))) (spine : List Nat)
    (p : LockFreeKeyPool) (count : Nat) (log : List (Entry KeyPoolOp (Option Nat)))
    (pending : Nat → Option (Pending KeyPoolOp (Option Nat))) : Prop where
  sound : Sound spine p
  record : p.Recorded none h log pending ⟨(p.stack.values spine).map UInt64.toNat, count⟩
  bound : count ≤ 2 ^ 64
  counter : p.nextKey.toNat = count % 2 ^ 64
  drawn : Drawn log count

variable {p p' : LockFreeKeyPool} {spine : List Nat} {i count node : Nat} {key : UInt64}
  {h : List (Event KeyPoolOp (Option Nat))} {log : List (Entry KeyPoolOp (Option Nat))}
  {pending : Nat → Option (Pending KeyPoolOp (Option Nat))}

theorem Drawn.concat (drawn : Drawn log count) (x : Entry KeyPoolOp (Option Nat)) :
    Drawn (log ++ [x]) count := by
  obtain ⟨before, after, rfl, replays⟩ := drawn
  exact ⟨before, after ++ [x], append_assoc .., replays⟩

namespace Logged

variable (logged : Logged h spine p count log pending)
include logged

/-- A goroutine makes a step. -/
theorem start (others : ∀ {j}, j ≠ i → p'.stack.stage j = p.stack.stage j) :
    p'.Recorded (some i) h log pending ⟨(p.stack.values spine).map UInt64.toNat, count⟩ :=
  logged.record.start (fun other accords => (others other).symm ▸ accords)
    fun other mark => (others other).symm.trans mark

theorem get (idle : p.stack.threads i = .idle) :
    ∃ pending', Logged (h ++ [.call i .get]) spine { p with stack := p.stack.goto i .popLoad }
      count log pending' := by
  have here := stage_goto_self p.stack i .popLoad
  have record : Recorded { p with stack := p.stack.goto i .popLoad } (some i) h log pending _ :=
    logged.start fun other => stage_goto_ne p.stack _ other
  refine ⟨_, { logged with
    sound := logged.sound.get idle
    record := (record.call .get).finish (update_self ..) ?_ ?_ }⟩
  · exact here.symm ▸ .popping
  · exact fun mark => by cases here.symm.trans mark

/-- A thread begins to return a key. -/
theorem put (idle : p.stack.threads i = .idle)
    (holds : key ∈ p.held i) (free : ¬ p.stack.Referenced node) : ∃ pending',
      Logged (h ++ [.call i (.put key.toNat)]) spine { p with
        stack := (p.stack.setNode node { value := some key }).goto i (.pushLoad node)
        held := update p.held i ((p.held i).erase key) } count log pending' := by
  have here : ((p.stack.setNode node { value := some key }).goto i (.pushLoad node)).stage i =
      .pushing (some key) := by
    rw [stage_goto_self]
    exact congrArg (fun new : StackNode UInt64 => Stage.pushing new.value)
      (setNode_self ..)
  have record : Recorded { p with
      stack := (p.stack.setNode node { value := some key }).goto i (.pushLoad node)
      held := update p.held i ((p.held i).erase key) } (some i) h log pending _ :=
    logged.start fun {j} other => (stage_goto_ne _ _ other).trans (stage_setNode free _ j)
  rw [← values_setNode logged.sound.stack free { value := some key }] at record
  refine ⟨_, { logged with
    sound := logged.sound.put idle holds free
    record := (record.call (.put key.toNat)).finish (update_self ..) ?_ ?_ }⟩
  · exact here.symm ▸ .pushing
  · exact fun mark => by cases here.symm.trans mark

/-- A key on the stack is not the key 0. -/
theorem ne_zero {rest : List UInt64}
    (values : p.stack.values spine = key :: rest) : key.toNat ≠ 0 := by
  intro zero
  refine logged.sound.ne_zero ⟨0, mem_append_right _ ?_⟩ (UInt64.toNat_inj.mp zero)
  rw [values]
  exact mem_cons_self

/-- A step inside of `Pop` or `Push` takes effect, finds the stack empty, ends a `put`, or is not
seen. -/
theorem call {stack : LockFreeStack UInt64}
    (advanced : p.stack.Advanced i stack) : ∃ spine' log' pending',
      Logged (h ++ p.see (.advance i) { p with stack }) spine' { p with stack } count log'
        pending' := by
  obtain ⟨spine', sound', staged⟩ := logged.sound.stack.staged advanced
  obtain ⟨spine'', sound⟩ := logged.sound.call advanced
  -- there is one chain of nodes from the top on
  obtain rfl : spine'' = spine' := sound.stack.linked.chain.next.unique
    sound'.linked.chain.next (sound.stack.linked.chain.top.trans sound'.linked.chain.top.symm)
  have record : Recorded { p with stack } (some i) h log pending _ :=
    logged.start fun other => advanced.stage_ne other
  have mine := logged.record.here i
  simp only [see]
  generalize current : p.stack.stage i = stage at staged mine
  generalize values : p.stack.values spine = content at staged record
  generalize next : stack.stage i = stage' at staged
  generalize values' : stack.values spine'' = content' at staged
  generalize pends : pending i = call at mine
  have close : ∀ {h log pending call}, pending i = call → Accords stage' call →
      (stage' = .answered none → ∀ c, call = some c →
        Met KeyPoolOp.count ⟨[], 2⟩ (fun p => p.stack = []) h log c.id) →
      Recorded { p with stack } (some i) h log pending ⟨content'.map UInt64.toNat, count⟩ →
      Drawn log count →
      ∃ spine' log' pending', Logged h spine' { p with stack } count log' pending' := by
    intro h log pending call mine here met record drawn
    subst next values'
    exact ⟨spine'', log, pending, sound, record.finish mine here met, logged.bound, logged.counter,
      drawn⟩
  cases staged with
  | stay lasting =>
    cases stage with
    | outside | answered _ | counting => cases lasting
    | pushing _ | popping | holding _ =>
      rw [append_nil]
      exact close pends mine (fun found => by cases found) record logged.drawn
  | push =>
    cases mine with
    | pushing =>
      rw [append_nil]
      exact close (update_self ..) .counting (fun found => by cases found)
        (record.enter pends rfl) (logged.drawn.concat _)
  | counted =>
    cases mine with
    | counting =>
      exact close (update_self ..) .outside (fun found => by cases found)
        (record.ret pends) logged.drawn
  | pop =>
    cases mine with
    | popping =>
      have effect : KeyPoolOp.count ⟨_ :: content'.map UInt64.toNat, count⟩ .get = _ :=
        KeyPool.count_cons (logged.ne_zero values)
      rw [append_nil]
      exact close (update_self ..) .holding (fun found => by cases found)
        (record.enter pends effect) (logged.drawn.concat _)
  | empty =>
    cases mine with
    | popping =>
      -- this is the moment at which the stack was empty
      rw [append_nil]
      refine close pends .nothing (fun _ c _ => .now record.replays ?_ c.id) record logged.drawn
      rfl
  | answer =>
    cases mine with
    | holding =>
      rw [append_nil]
      exact close pends .found (fun found => by cases found) record logged.drawn

/-- `get` returns. -/
theorem start_hand (key next : UInt64) :
    Recorded { p.hand i key with nextKey := next } (some i) h log pending
        ⟨(p.stack.values spine).map UInt64.toNat, count⟩ ∧
      (p.hand i key).stack.stage i = .outside ∧
      ((p.hand i key).held i).head?.map UInt64.toNat = some key.toNat := by
  refine ⟨logged.start fun other => stage_goto_ne p.stack _ other, stage_goto_self .., ?_⟩
  change (update p.held i (key :: p.held i) i).head?.map _ = _
  rw [update_self]
  rfl

variable {id : Nat}

/-- The later one of the moment when the stack was found empty and the moment when the last key was
taken from the counter. -/
theorem moment (met : Met KeyPoolOp.count ⟨[], 2⟩ (fun p => p.stack = []) h log id) :
    ∃ before after, log = before ++ after ∧
      Replays KeyPoolOp.count before ⟨[], 2⟩ ⟨[], count⟩ ∧
      ∀ e ∈ after, ¬ Precedes h e.id id := by
  obtain ⟨before, after, ⟨stack, nextKey⟩, rfl, replays, rfl, late⟩ := met
  obtain ⟨early, rest, split, drawn⟩ := logged.drawn
  obtain ⟨mid, rfl, rfl⟩ | ⟨mid, rfl, rfl⟩ := append_eq_append_iff.mp split
  · exact ⟨before ++ mid, rest, (append_assoc ..).symm, drawn, fun e inside =>
      late e (mem_append_right mid inside)⟩
  · -- the counter has not moved in between
    have most := KeyPool.nextKey_le (logged.record.replays.rest replays)
    have least := KeyPool.nextKey_le (replays.rest drawn)
    cases show nextKey = count from le_antisymm most least
    exact ⟨early ++ mid, after, rfl, replays, late⟩

/-- Where a key may be taken from the counter, it has not come round. -/
theorem counter_eq (within : firstFreeKey ≤ p.nextKey) :
    p.nextKey.toNat = count ∧ count + 1 ≤ 2 ^ 64 ∧
      (p.nextKey + 1).toNat = (count + 1) % 2 ^ 64 := by
  have bound := logged.bound
  have counter := logged.counter
  have least : 2 ≤ p.nextKey.toNat := UInt64.le_iff_toNat_le.mp within
  have more : (p.nextKey + 1).toNat = (p.nextKey.toNat + 1) % 2 ^ 64 := UInt64.toNat_add p.nextKey 1
  omega

/-- `get` returns a key from the counter. It has taken effect when the stack was empty. -/
theorem draw
    (answer : p.stack.threads i = .answered none) (call : pending i = some ⟨id, .get, none⟩)
    (met : Met KeyPoolOp.count ⟨[], 2⟩ (fun p => p.stack = []) h log id)
    (within : firstFreeKey ≤ p.nextKey) : ∃ log' pending',
      Logged (h ++ [.ret i (some p.nextKey.toNat)]) spine
        { p.hand i p.nextKey with nextKey := p.nextKey + 1 } (count + 1) log' pending' := by
  obtain ⟨before, after, rfl, replays, late⟩ := logged.moment met
  obtain ⟨key, bound, counter⟩ := logged.counter_eq within
  obtain ⟨record, here, _⟩ := logged.start_hand (i := i) p.nextKey (p.nextKey + 1)
  have effect : KeyPoolOp.count ⟨[], count⟩ .get = (some count, ⟨[], count + 1⟩) := rfl
  have entered := record.insert call late replays (fun p => ⟨p.stack, p.nextKey + 1⟩) effect
    (by
      rintro mid rest ⟨stack, nextKey⟩ rfl reached left
      -- the key is taken after all others that were
      have most := KeyPool.nextKey_le left
      have least := KeyPool.nextKey_le reached
      cases show nextKey = count from le_antisymm most least
      exact KeyPool.replays_frame reached (count + 1))
    fun _ empty => empty
  have returned := entered.ret (update_self ..)
  rw [key]
  refine ⟨_, _, logged.sound.count answer within, returned.finish (update_self ..) ?_ ?_,
    bound, counter, before ++ [⟨id, .get, some count⟩], after, by simp, ?_⟩
  · exact here.symm ▸ .outside
  · exact fun mark => by cases here.symm.trans mark
  · exact replays_append.mpr ⟨_, replays, rfl, rfl⟩

/-- The rest of `get`. -/
theorem resume {value : Option UInt64} (answer : p.stack.threads i = .answered value)
    (unwrapped : value.getD 0 = 0 → firstFreeKey ≤ p.nextKey) : ∃ count' log' pending',
      Logged (h ++ p.see (.advance i) (p.resume i (value.getD 0))) spine
        (p.resume i (value.getD 0)) count' log' pending' := by
  have mine := logged.record.here i
  have stage : p.stack.stage i = .answered value := congrArg p.stack.stageOf answer
  simp only [see, stage]
  rw [stage] at mine
  generalize pends : pending i = call at mine
  unfold LockFreeKeyPool.resume
  cases mine with
  | @found id key =>
    have nonzero : key ≠ 0 := by
      refine logged.sound.ne_zero (.of_share (x := i) ?_)
      unfold share
      rw [answer]
      exact mem_append_right _ mem_cons_self
    obtain ⟨record, here, head⟩ := logged.start_hand (i := i) key p.nextKey
    rw [getD_some, if_neg nonzero, head]
    refine ⟨count, log, _, { logged with
      sound := logged.sound.hand answer
      record := (record.ret pends).finish (update_self ..) ?_ ?_ }⟩
    · exact here.symm ▸ .outside
    · exact fun mark => by cases here.symm.trans mark
  | nothing =>
    obtain ⟨_, _, head⟩ := logged.start_hand (i := i) p.nextKey p.nextKey
    rw [if_pos getD_none, UInt64.add_sub_cancel, head]
    obtain ⟨log', pending', after⟩ :=
      logged.draw answer pends (logged.record.meets stage pends) (unwrapped rfl)
    exact ⟨count + 1, log', pending', after⟩

/-- Every step extends the log. -/
theorem step {label : KeyPoolLabel}
    (fresh : p.Fresh label) (unwrapped : p.Unwrapped label) (done : p.step label = some p') :
    ∃ spine' count' log' pending', Logged (h ++ p.see label p') spine' p' count' log' pending' := by
  cases label with
  | get i =>
    simp only [LockFreeKeyPool.step] at done
    split_ifs at done with idle
    obtain ⟨stack, called, rfl⟩ := map_eq_some_iff.mp done
    cases (step_pop (StackPc.running_of_idle idle)).symm.trans called
    exact ⟨spine, count, log, logged.get idle⟩
  | put i key node =>
    simp only [LockFreeKeyPool.step] at done
    split_ifs at done with holds
    obtain ⟨stack, called, rfl⟩ := map_eq_some_iff.mp done
    cases (step_push (StackPc.running_of_idle holds.1) key node).symm.trans called
    exact ⟨spine, count, log, logged.put holds.1 holds.2 fresh⟩
  | advance i =>
    simp only [LockFreeKeyPool.step] at done
    split at done
    · rename_i value answer
      cases done
      exact ⟨spine, logged.resume answer (unwrapped value answer)⟩
    · obtain ⟨stack, called, rfl⟩ := map_eq_some_iff.mp done
      have advanced := advance_advanced called
      obtain ⟨spine', log', pending', after⟩ := logged.call advanced
      exact ⟨spine', count, log', pending', after⟩

end Logged

/-- However the goroutines interleave, until the counter comes round, the calls of `get` and `put`
have taken effect one after the other on the pool of the worker's model, and what that pool would
have then is what is there. -/
theorem run_linearizes_keys {ls : List KeyPoolLabel} (ran : run step ls newKeyPool = some p)
    (fresh : Along step Fresh ls newKeyPool) (unwrapped : Along step Unwrapped ls newKeyPool) :
    ∃ spine log, p.stack.Spine spine ∧
      Linearizes KeyPoolOp.apply ⟨[], 2⟩ (observed step see ls newKeyPool) log
        ⟨(p.stack.values spine).map UInt64.toNat, p.nextKey.toNat⟩ := by
  have preserved : ∀ h (p : LockFreeKeyPool) label p', p.Fresh label ∧ p.Unwrapped label →
      p.step label = some p' → (∃ spine count log pending, Logged h spine p count log pending) →
      ∃ spine count log pending, Logged (h ++ p.see label p') spine p' count log pending :=
    fun h p label p' free done ⟨spine, count, log, pending, logged⟩ =>
      logged.step free.1 free.2 done
  have initial : Logged [] [] newKeyPool 2 [] fun _ => none :=
    ⟨newKeyPool_sound, .nil fun _ => .outside, by decide, by decide, [], [], rfl, rfl⟩
  obtain ⟨spine, count, log, pending, logged⟩ := observed_invariant preserved ran
    (fresh.and unwrapped) ⟨[], 2, [], _, initial⟩
  have replays := KeyPool.replays_wrapped logged.record.replays logged.bound
  simp only [KeyPool.wrapped, ← logged.counter] at replays
  exact ⟨spine, log, logged.sound.stack.linked.chain, replays, logged.record.journal.arranges⟩

/-- A goroutine finds the stack empty. Before it comes to the counter, another one does so and takes
the key 2. -/
def overtaken : List KeyPoolLabel :=
  [.get 0, .advance 0, .get 1, .advance 1, .advance 1, .advance 0]

theorem run_linearizes_keys_overtaken : ∃ p spine log, run step overtaken newKeyPool = some p ∧
    Linearizes KeyPoolOp.apply ⟨[], 2⟩
      [.call 0 .get, .call 1 .get, .ret 1 (some 2), .ret 0 (some 3)] log
      ⟨(p.stack.values spine).map UInt64.toNat, p.nextKey.toNat⟩ := by
  obtain ⟨p, ran⟩ := isSome_iff_exists.mp
    (show (run step overtaken newKeyPool).isSome = true by decide)
  have fresh : Along step Fresh overtaken newKeyPool :=
    ⟨trivial, fun _ _ => ⟨trivial, fun _ _ => ⟨trivial, fun _ _ => ⟨trivial, fun _ _ => ⟨trivial,
      fun _ _ => ⟨trivial, fun _ _ => trivial⟩⟩⟩⟩⟩⟩
  obtain ⟨spine, log, _, linear⟩ := run_linearizes_keys ran fresh (along_unwrapped (by decide))
  exact ⟨p, spine, log, ran, linear⟩

end LockFreeKeyPool

end Gain
