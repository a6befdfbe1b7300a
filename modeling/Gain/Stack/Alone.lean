import Gain.Stack.KeyPool

/-! # Calls that are not interrupted

A goroutine whose call of `get` runs from its start to its end without a step of another one,
where nothing is on the stack.
-/

namespace Gain

open LockFreeStack Option

namespace LockFreeStack

variable {α : Type} {s s' : LockFreeStack α} {i : Nat}

theorem run_pop_empty (resting : (s.threads i).running = false) (empty : s.top = none) :
    run step (.pop i :: List.replicate 1 (.advance i)) s = some (s.goto i (.answered none)) := by
  rw [run_cons (step_pop resting)]
  simp [run, step, advance, goto, empty, List.replicate]

theorem running_of_advance (done : s.advance i = some s') : (s.threads i).running = true := by
  unfold advance at done
  cases here : s.threads i with
  | idle | answered _ => simp only [here, reduceCtorEq] at done
  | popLoad | popNext _ | popSwap _ _ | popCount _ | popValue _ | pushLoad _ | pushSwap _ _
  | pushCount => rfl

end LockFreeStack

namespace LockFreeKeyPool

variable {p : LockFreeKeyPool} {stack : LockFreeStack UInt64} {i : Nat} {value : Option UInt64}
  {n : Nat}

theorem step_answer (answer : p.stack.threads i = .answered value) :
    p.step (.advance i) = some (p.resume i (value.getD 0)) := by
  simp only [step, answer]

/-- A step inside of `Pop` or `Push` is one of the pool. -/
theorem step_call (called : p.stack.advance i = some stack) :
    p.step (.advance i) = some { p with stack } := by
  have running := running_of_advance called
  simp only [step]
  split
  · rename_i value answer
    cases running.symm.trans (StackPc.running_of_answered answer)
  · exact congrArg (Option.map _) called

theorem run_calls
    (ran : run LockFreeStack.step (List.replicate n (.advance i)) p.stack = some stack) :
    run step (List.replicate n (.advance i)) p = some { p with stack } := by
  induction n generalizing p with
  | zero =>
    cases ran
    rfl
  | succ n ih =>
    obtain ⟨next, called, rest⟩ := bind_eq_some_iff.mp ran
    rw [List.replicate_succ, run_cons (step_call called)]
    exact ih rest

/-- `get` is `Pop` and what follows it. -/
theorem run_get_of_pop (idle : p.stack.threads i = .idle)
    (popped : run LockFreeStack.step (.pop i :: List.replicate n (.advance i)) p.stack = some stack)
    (answer : stack.threads i = .answered value) :
    run step (.get i :: List.replicate (n + 1) (.advance i)) p =
      some (resume { p with stack } i (value.getD 0)) := by
  have pop := step_pop (StackPc.running_of_idle idle)
  rw [run_cons pop] at popped
  have called : p.step (.get i) = some { p with stack := p.stack.goto i .popLoad } := by
    simp only [step, idle, pop, if_true, map_some]
  have last : run step [.advance i] { p with stack } =
      some (resume { p with stack } i (value.getD 0)) := run_cons (step_answer answer)
  rw [run_cons called, List.replicate_succ', run_append, run_calls popped, bind_some, last]

/-- `get` where nothing is on the stack. -/
theorem run_get_empty (idle : p.stack.threads i = .idle) (empty : p.stack.top = none) :
    run step (.get i :: List.replicate 2 (.advance i)) p = some { p with
      nextKey := p.nextKey + 1
      held := Function.update p.held i (p.nextKey :: p.held i) } := by
  have resting := StackPc.running_of_idle idle
  rw [run_get_of_pop idle (run_pop_empty resting empty) (goto_threads_self ..)]
  unfold resume hand
  rw [if_pos getD_none, UInt64.add_sub_cancel, goto_goto, goto_self idle]

end LockFreeKeyPool

end Gain
