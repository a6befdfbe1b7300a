import Gain.Foundation.Linearizable
import Gain.Stack.Account

/-! # The stack is linearizable

For the callers of the stack a call is at one of a few stages, and only two steps of a
call matter to the others: the swap that puts a node on the top and the one that takes
it off. A `Pop` that finds nothing has taken effect when it loads the top. So the calls
take effect one after the other, as on a list.
-/

namespace Gain

open Function List Option

variable {α : Type}

inductive StackOp (α : Type) where
  | push (value : α)
  | pop

inductive StackReply (α : Type) where
  | pushed
  | popped (value : Option α)

/-- The stack of a single caller, the top first. -/
def StackOp.apply : List α → StackOp α → StackReply α × List α
  | values, .push value => (.pushed, value :: values)
  | [], .pop => (.popped none, [])
  | value :: values, .pop => (.popped (some value), values)

/-- How far a goroutine has got with its call. -/
inductive Stage (α : Type) where
  | outside
  /-- The value is not on the stack yet. -/
  | pushing (value : Option α)
  /-- `Push` has yet to count. -/
  | counting
  | popping
  /-- `Pop` has yet to count and to read its value. -/
  | holding (value : Option α)
  | answered (value : Option α)

/-- The goroutine is in a call. -/
def Stage.inside : Stage α → Bool
  | outside | answered _ => false
  | _ => true

/-- The call may stay at this stage for several steps. -/
def Stage.lasting : Stage α → Bool
  | pushing _ | popping | holding _ => true
  | _ => false

/-- A step of a call, as it concerns the values on the stack. -/
inductive Staged : Stage α → List α → Stage α → List α → Prop
  | stay {stage : Stage α} {values : List α} (lasting : stage.lasting = true) :
      Staged stage values stage values
  | push {value : α} {values : List α} :
      Staged (.pushing (some value)) values .counting (value :: values)
  | counted {values : List α} : Staged .counting values .outside values
  | pop {value : α} {values : List α} :
      Staged .popping (value :: values) (.holding (some value)) values
  | empty : Staged .popping [] (.answered none) []
  | answer {value : α} {values : List α} :
      Staged (.holding (some value)) values (.answered (some value)) values

namespace LockFreeStack

variable {s s' : LockFreeStack α} {spine : List Nat} {i j : Nat} {node : Nat}

/-- The stage of a call. -/
def stageOf (s : LockFreeStack α) : StackPc α → Stage α
  | .idle => .outside
  | .answered value => .answered value
  | .popLoad | .popNext _ | .popSwap _ _ => .popping
  | .popCount item | .popValue item => .holding (s.nodes item).value
  | .pushLoad item | .pushSwap item _ => .pushing (s.nodes item).value
  | .pushCount => .counting

def stage (s : LockFreeStack α) (i : Nat) : Stage α := s.stageOf (s.threads i)

theorem stageOf_congr {pc : StackPc α}
    (same : ∀ a, pc.own = some a → (s'.nodes a).value = (s.nodes a).value) :
    s'.stageOf pc = s.stageOf pc := by
  cases pc with
  | pushLoad _ | pushSwap _ _ => exact congrArg Stage.pushing (same _ rfl)
  | popCount _ | popValue _ => exact congrArg Stage.holding (same _ rfl)
  | idle | answered _ | popLoad | popNext _ | popSwap _ _ | pushCount => rfl

/-- The other calls stay where they are. -/
theorem Advanced.stage_ne (advanced : Advanced s i s') (other : j ≠ i) :
    s'.stage j = s.stage j := by
  unfold stage
  rw [advanced.others other]
  exact stageOf_congr fun a _ => advanced.value a

theorem stage_goto_self (s : LockFreeStack α) (i : Nat) (pc : StackPc α) :
    (s.goto i pc).stage i = s.stageOf pc := by
  unfold stage
  rw [goto_threads_self]
  rfl

theorem stage_goto_ne (s : LockFreeStack α) (pc : StackPc α) (other : j ≠ i) :
    (s.goto i pc).stage j = s.stage j := by
  unfold stage
  rw [goto_threads_ne s pc other]
  rfl

/-- The stack of calls and values: a step of a call is one of these. -/
theorem Sound.staged (sound : Sound spine s) (advanced : Advanced s i s') :
    ∃ spine', Sound spine' s' ∧
      Staged (s.stage i) (s.values spine) (s'.stage i) (s'.values spine') := by
  obtain ⟨spine', sound', same⟩ := sound.advanced advanced
  refine ⟨spine', sound', ?_⟩
  -- the values of the nodes are those before the step
  have after : s'.stage i = s.stageOf (s'.threads i) := stageOf_congr fun a _ => advanced.value a
  rw [carried_congr fun a _ => advanced.value a] at same
  rw [after]
  unfold stage
  cases advanced with
  | @goes pc goes =>
    rw [goto_threads_self] at same ⊢
    generalize s.threads i = pc' at goes same
    cases goes with
    | popNil empty =>
      have none' : spine = [] := head?_eq_none_iff.mp (sound.linked.chain.top.trans empty)
      have values : (s.goto i (.answered none)).values spine' = s.values spine := same
      rw [values, none']
      exact .empty
    | popLoad | popNext | popAgain | pushAgain =>
      rw [append_cancel_left same]
      exact .stay rfl
    | @popValue item value read =>
      simp only [carried, read] at same
      simp only [stageOf, read]
      rw [append_cancel_left same]
      exact .answer
  | @aimed item here =>
    rw [goto_threads_self] at same ⊢
    rw [here] at same ⊢
    rw [append_cancel_left same]
    exact .stay rfl
  | @pushed item here =>
    have now : (s.goto i .pushCount).threads i = .pushCount := goto_threads_self ..
    have mine : (s.threads i).own = some item := by
      rw [here]
      rfl
    obtain ⟨value, read⟩ := isSome_iff_exists.mp (sound.linked.own mine).2
    rw [now, here] at same ⊢
    simp only [carried, read, toList_none, toList_some, nil_append, singleton_append] at same
    simp only [stageOf, read]
    rw [same]
    exact .push
  | @popped item next here top =>
    have now : (s.goto i (.popCount item)).threads i = .popCount item := goto_threads_self ..
    have inside : item ∈ spine := mem_of_mem_head? (sound.linked.chain.top.trans top)
    obtain ⟨value, read⟩ := isSome_iff_exists.mp (sound.linked.valued inside)
    rw [now, here] at same ⊢
    simp only [carried, read, toList_none, toList_some, nil_append, singleton_append] at same
    simp only [stageOf, read]
    rw [← same]
    exact .pop
  | countIn here =>
    have now : (s.goto i .idle).threads i = .idle := goto_threads_self ..
    rw [now, here] at same ⊢
    rw [append_cancel_left same]
    exact .counted
  | @countOut item here =>
    have now : (s.goto i (.popValue item)).threads i = .popValue item := goto_threads_self ..
    rw [now, here] at same ⊢
    rw [append_cancel_left same]
    exact .stay rfl

/-- A node that nothing refers to is written. -/
theorem values_setNode (sound : Sound spine s) (free : ¬ s.Referenced node) (new : StackNode α) :
    (s.setNode node new).values spine = s.values spine := by
  refine values_congr fun a inside => congrArg StackNode.value (setNode_ne s new ?_)
  rintro rfl
  exact free (.inl ⟨spine, sound.linked.chain, inside⟩)

theorem stage_setNode (free : ¬ s.Referenced node) (new : StackNode α) (j : Nat) :
    (s.setNode node new).stage j = s.stage j := by
  refine stageOf_congr fun a mine => congrArg StackNode.value (setNode_ne s new ?_)
  rintro rfl
  exact free (.inr ⟨j, StackPc.mem_pointers_of_own mine⟩)

/-! ## The log of the stack -/

/-- What the callers of the stack see of a step. -/
def see (_ : LockFreeStack α) (label : StackLabel α) (s' : LockFreeStack α) :
    List (Event (StackOp α) (StackReply α)) :=
  match label with
  | .push i value _ => [.call i (.push value)]
  | .pop i => [.call i .pop]
  | .advance i =>
    match s'.stage i with
    | .outside => [.ret i .pushed]
    | .answered value => [.ret i (.popped value)]
    | _ => []

/-- What a goroutine at this stage has called, and the reply if the call has taken effect. -/
inductive Accords : Stage α → Option (Pending (StackOp α) (StackReply α)) → Prop
  | outside {stage : Stage α} (outside : stage.inside = false) : Accords stage none
  | pushing {id : Nat} {value : α} : Accords (.pushing (some value)) (some ⟨id, .push value, none⟩)
  | counting {id : Nat} {value : α} : Accords .counting (some ⟨id, .push value, some .pushed⟩)
  | popping {id : Nat} : Accords .popping (some ⟨id, .pop, none⟩)
  | holding {id : Nat} {value : α} :
      Accords (.holding (some value)) (some ⟨id, .pop, some (.popped (some value))⟩)

/-- The stack with the log of what its callers have seen. -/
structure Logged (h : List (Event (StackOp α) (StackReply α))) (spine : List Nat)
    (s : LockFreeStack α) (log : List (Entry (StackOp α) (StackReply α)))
    (pending : Nat → Option (Pending (StackOp α) (StackReply α))) : Prop where
  sound : Sound spine s
  record : Record StackOp.apply [] (fun _ => True) (fun j => Accords (s.stage j)) (fun _ => False)
    none h log pending (s.values spine)

variable {h : List (Event (StackOp α) (StackReply α))}
  {log : List (Entry (StackOp α) (StackReply α))}
  {pending : Nat → Option (Pending (StackOp α) (StackReply α))}

namespace Logged

variable (logged : Logged h spine s log pending)
include logged

/-- A goroutine makes a step. -/
theorem start (others : ∀ {j}, j ≠ i → s'.stage j = s.stage j) :
    Record StackOp.apply [] (fun _ => True) (fun j => Accords (s'.stage j)) (fun _ => False)
      (some i) h log pending (s.values spine) :=
  logged.record.start (fun other accords => (others other).symm ▸ accords) fun _ mark => mark

/-- A step of a call takes effect, returns, or is not seen. -/
theorem advance (advanced : Advanced s i s') :
    ∃ spine' log' pending', Logged (h ++ s.see (.advance i) s') spine' s' log' pending' := by
  obtain ⟨spine', sound', staged⟩ := logged.sound.staged advanced
  have record := logged.start fun {j} (other : j ≠ i) => advanced.stage_ne other
  have mine := logged.record.here i
  simp only [see]
  generalize current : s.stage i = stage at staged mine
  generalize s.values spine = content at staged record
  generalize next : s'.stage i = stage' at staged
  generalize values : s'.values spine' = content' at staged
  generalize call : pending i = pends at mine
  have close : ∀ {h log pending pends}, pending i = pends → Accords stage' pends →
      Record StackOp.apply [] (fun _ => True) (fun j => Accords (s'.stage j)) (fun _ => False)
        (some i) h log pending content' →
      ∃ spine' log' pending', Logged h spine' s' log' pending' := by
    intro h log pending pends mine here record
    refine ⟨spine', log, pending, sound', ?_⟩
    rw [values]
    exact record.finish mine (next ▸ here) False.elim
  cases staged with
  | stay lasting =>
    have same := close call mine record
    cases stage with
    | outside | answered _ | counting => cases lasting
    | pushing _ | popping | holding _ => exact (append_nil h).symm ▸ same
  | push =>
    cases mine with
    | outside outside => cases outside
    | pushing =>
      rw [append_nil]
      exact close (update_self ..) .counting (record.enter call rfl)
  | counted =>
    cases mine with
    | outside outside => cases outside
    | counting => exact close (update_self ..) (.outside rfl) (record.ret call)
  | pop =>
    cases mine with
    | outside outside => cases outside
    | popping =>
      rw [append_nil]
      exact close (update_self ..) .holding (record.enter call rfl)
  | empty =>
    cases mine with
    | outside outside => cases outside
    | popping =>
      -- the call takes effect and returns at once
      have entered := record.enter call rfl
      exact close (update_self ..) (.outside rfl)
        (entered.ret (update_self ..))
  | answer =>
    cases mine with
    | outside outside => cases outside
    | holding => exact close (update_self ..) (.outside rfl) (record.ret call)

theorem push (resting : (s.threads i).running = false)
    (value : α) (free : ¬ s.Referenced node) : ∃ pending',
      Logged (h ++ [.call i (.push value)]) spine
        ((s.setNode node { value := some value }).goto i (.pushLoad node)) log pending' := by
  have record := logged.start fun {j} (other : j ≠ i) =>
    (stage_goto_ne (s.setNode node { value := some value }) (.pushLoad node) other).trans
      (stage_setNode free _ j)
  rw [← values_setNode logged.sound free] at record
  refine ⟨_, logged.sound.push resting value free,
    (record.call (.push value)).finish (update_self ..) ?_ False.elim⟩
  rw [stage_goto_self]
  change Accords (.pushing ((s.setNode node _).nodes node).value) _
  rw [setNode_self]
  exact .pushing

theorem pop (resting : (s.threads i).running = false) :
    ∃ pending', Logged (h ++ [.call i .pop]) spine (s.goto i .popLoad) log pending' := by
  have record := logged.start fun {j} (other : j ≠ i) => stage_goto_ne s .popLoad other
  refine ⟨_, logged.sound.rest resting (.inr rfl),
    (record.call .pop).finish (update_self ..) ?_ False.elim⟩
  rw [stage_goto_self]
  exact .popping

/-- Every step extends the log. -/
theorem step {label : StackLabel α} (fresh : s.Fresh label) (done : s.step label = some s') :
    ∃ spine' log' pending', Logged (h ++ s.see label s') spine' s' log' pending' := by
  cases label with
  | push i value node =>
    simp only [LockFreeStack.step] at done
    split_ifs at done with running
    cases done
    exact ⟨spine, log, logged.push (Bool.not_eq_true _ ▸ running) value fresh⟩
  | pop i =>
    simp only [LockFreeStack.step] at done
    split_ifs at done with running
    cases done
    exact ⟨spine, log, logged.pop (Bool.not_eq_true _ ▸ running)⟩
  | advance i => exact logged.advance (advance_advanced done)

end Logged

/-- Whatever the goroutines do, their calls take effect one after the other, as on a list, and what
is on the stack is what these calls leave. -/
theorem run_linearizes {ls : List (StackLabel α)} (ran : run step ls newLockFreeStack = some s)
    (fresh : Along step Fresh ls newLockFreeStack) : ∃ spine log, s.Spine spine ∧
      Linearizes StackOp.apply [] (observed step see ls newLockFreeStack) log (s.values spine) := by
  have preserved : ∀ h (s : LockFreeStack α) label s', s.Fresh label → s.step label = some s' →
      (∃ spine log pending, Logged h spine s log pending) →
      ∃ spine log pending, Logged (h ++ s.see label s') spine s' log pending :=
    fun h s label s' fresh done ⟨spine, log, pending, logged⟩ => logged.step fresh done
  have initial : Logged [] [] (newLockFreeStack : LockFreeStack α) [] fun _ => none :=
    ⟨newLockFreeStack_sound, .nil fun _ => .outside rfl⟩
  obtain ⟨spine, log, pending, logged⟩ :=
    observed_invariant preserved ran fresh ⟨[], [], _, initial⟩
  exact ⟨spine, log, logged.sound.linked.chain, logged.record.replays,
    logged.record.journal.arranges⟩

/-- A `Pop` loads the top while a `Push` is under way and finds nothing. The next one gets the value
of that `Push`, which has not returned. -/
def meeting : List (StackLabel Nat) :=
  [.push 0 5 7, .advance 0, .pop 1, .advance 1, .advance 0, .pop 1] ++
    List.replicate 5 (.advance 1)

theorem run_linearizes_meeting : ∃ s spine log, run step meeting newLockFreeStack = some s ∧
    Linearizes StackOp.apply []
      [.call 0 (.push 5), .call 1 .pop, .ret 1 (.popped none), .call 1 .pop,
        .ret 1 (.popped (some 5))] log (s.values spine) := by
  obtain ⟨s, ran⟩ := isSome_iff_exists.mp
    (show (run step meeting newLockFreeStack).isSome = true by decide)
  have fresh : Along step Fresh meeting newLockFreeStack :=
    ⟨newLockFreeStack_free 7, fun s _ => along_fresh (by decide)⟩
  obtain ⟨spine, log, _, linear⟩ := run_linearizes ran fresh
  exact ⟨s, spine, log, ran, linear⟩

end LockFreeStack

end Gain
