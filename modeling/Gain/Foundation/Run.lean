import Mathlib.Init

/-! # Runs of a partial step function

A system is a step function on labels that may refuse. A run is a list of labels
none of which is refused. Properties of runs are proved from what one step
preserves, where a step may be assumed to meet a condition on its label and on
the state it starts in.
-/

namespace Gain

open List Option

variable {S L : Type} (step : S → L → Option S)

def run : List L → S → Option S
  | [], s => some s
  | l :: ls, s => (step s l).bind (run ls)

/-- Every step of the run meets the condition. -/
def Along (condition : S → L → Prop) : List L → S → Prop
  | [], _ => True
  | l :: ls, s => condition s l ∧ ∀ s', step s l = some s' → Along condition ls s'

/-- The property holds in every state of the run, the last one included. -/
def Throughout (property : S → Prop) : List L → S → Prop
  | [], s => property s
  | l :: ls, s => property s ∧ ∀ s', step s l = some s' → Throughout property ls s'

/-- What the steps of a run show, in their order. -/
def trace {E : Type} (shows : L → S → List E) : List L → S → List E
  | [], _ => []
  | l :: ls, s => ((step s l).map fun s' => shows l s' ++ trace shows ls s').getD []

/-- The state comes from another one by steps that meet the condition. -/
def Comes (condition : S → L → Prop) (s s' : S) : Prop :=
  ∃ ls, run step ls s = some s' ∧ Along step condition ls s

instance Along.decidable (condition : S → L → Prop) [∀ s l, Decidable (condition s l)] :
    (ls : List L) → (s : S) → Decidable (Along step condition ls s)
  | [], _ => isTrue trivial
  | l :: ls, s =>
    haveI : Decidable (∀ s', step s l = some s' → Along step condition ls s') :=
      match step s l with
      | none => isTrue fun _ taken => nomatch taken
      | some s₁ =>
        haveI := Along.decidable condition ls s₁
        decidable_of_iff (Along step condition ls s₁)
          ⟨fun along _ taken => Option.some.inj taken ▸ along, fun all => all s₁ rfl⟩
    inferInstanceAs (Decidable (condition s l ∧ _))

instance Throughout.decidable (property : S → Prop) [DecidablePred property] :
    (ls : List L) → (s : S) → Decidable (Throughout step property ls s)
  | [], s => inferInstanceAs (Decidable (property s))
  | l :: ls, s =>
    haveI : Decidable (∀ s', step s l = some s' → Throughout step property ls s') :=
      match step s l with
      | none => isTrue fun _ taken => nomatch taken
      | some s₁ =>
        haveI := Throughout.decidable property ls s₁
        decidable_of_iff (Throughout step property ls s₁)
          ⟨fun holds _ taken => Option.some.inj taken ▸ holds, fun all => all s₁ rfl⟩
    inferInstanceAs (Decidable (property s ∧ _))

variable {step} {l : L} {ls : List L} {s s' : S} {property : S → Prop}
  {condition first second : S → L → Prop}

/-- A run is found by evaluation, with what holds at its end. -/
theorem exists_run_from {P : S → Prop} [DecidablePred P]
    (seen : (run step ls s).map (fun s' => decide (P s')) = some true) :
    ∃ s', run step ls s = some s' ∧ P s' := by
  obtain ⟨s', ran, holds⟩ := map_eq_some_iff.mp seen
  exact ⟨s', ran, of_decide_eq_true holds⟩

/-- The same with the state a run starts in. -/
theorem exists_run {start : Option S} {P : S → S → Prop} [∀ s s', Decidable (P s s')]
    (seen : (start.bind fun s => (run step ls s).map fun s' => decide (P s s')) = some true) :
    ∃ s s', start = some s ∧ run step ls s = some s' ∧ P s s' := by
  obtain ⟨s, started, seen⟩ := bind_eq_some_iff.mp seen
  obtain ⟨s', found⟩ := exists_run_from seen
  exact ⟨s, s', started, found⟩

theorem run_cons (taken : step s l = some s') : run step (l :: ls) s = run step ls s' := by
  rw [run, taken, bind_some]

theorem run_append (ls ms : List L) (s : S) :
    run step (ls ++ ms) s = (run step ls s).bind (run step ms) := by
  induction ls generalizing s with
  | nil => rfl
  | cons l ls ih =>
    rw [cons_append, run, run, bind_assoc]
    exact congrArg (step s l).bind (funext ih)

theorem Throughout.head (holds : Throughout step property ls s) : property s := by
  cases ls with
  | nil => exact holds
  | cons l ls => exact holds.1

/-- If not every state of a run has the property, there is one on the way that does not. -/
theorem exists_of_not_throughout (ran : run step ls s = some s')
    (fails : ¬ Throughout step property ls s) :
    ∃ early late s₁, ls = early ++ late ∧ run step early s = some s₁ ∧ ¬ property s₁ := by
  induction ls generalizing s with
  | nil => exact ⟨[], [], s, rfl, rfl, fails⟩
  | cons l ls ih =>
    by_cases here : property s
    · obtain ⟨s₁, first, rest⟩ := bind_eq_some_iff.mp ran
      have later : ¬ Throughout step property ls s₁ := by
        intro holds
        refine fails ⟨here, fun s' taken => ?_⟩
        cases first.symm.trans taken
        exact holds
      obtain ⟨early, late, s₂, split, reached, lacks⟩ := ih rest later
      refine ⟨l :: early, late, s₂, congrArg (l :: ·) split, ?_, lacks⟩
      rw [run, first]
      exact reached
    · exact ⟨[], l :: ls, s, rfl, rfl, here⟩

theorem along_of_forall {condition : L → Prop} (all : ∀ l ∈ ls, condition l) :
    Along step (fun _ l => condition l) ls s := by
  induction ls generalizing s with
  | nil => trivial
  | cons l ls ih =>
    refine ⟨all l mem_cons_self, fun s' _ => ih ?_⟩
    exact fun l' member => all l' (mem_cons_of_mem l member)

theorem Along.mono (weaker : ∀ s l, first s l → second s l) (along : Along step first ls s) :
    Along step second ls s := by
  induction ls generalizing s with
  | nil => trivial
  | cons l ls ih => exact ⟨weaker s l along.1, fun s' taken => ih (along.2 s' taken)⟩

theorem Along.and (one : Along step first ls s) (two : Along step second ls s) :
    Along step (fun s l => first s l ∧ second s l) ls s := by
  induction ls generalizing s with
  | nil => trivial
  | cons l ls ih => exact ⟨⟨one.1, two.1⟩, fun s' taken => ih (one.2 s' taken) (two.2 s' taken)⟩

theorem Along.append {ms : List L} (first : Along step condition ls s)
    (rest : ∀ s', run step ls s = some s' → Along step condition ms s') :
    Along step condition (ls ++ ms) s := by
  induction ls generalizing s with
  | nil => exact rest s rfl
  | cons l ls ih =>
    refine ⟨first.1, fun s₁ taken => ih (first.2 s₁ taken) fun s' ran => ?_⟩
    exact rest s' ((run_cons taken).trans ran)

theorem Comes.refl (s : S) : Comes step condition s s :=
  ⟨[], rfl, trivial⟩

theorem Comes.next {s₁ : S} (comes : Comes step condition s s₁) (meets : condition s₁ l)
    (taken : step s₁ l = some s') : Comes step condition s s' := by
  obtain ⟨ls, ran, along⟩ := comes
  refine ⟨ls ++ [l], ?_, along.append fun s₂ ran' => ?_⟩
  · rw [run_append, ran, bind_some, run_cons taken, run]
  · cases ran.symm.trans ran'
    exact ⟨meets, fun _ _ => trivial⟩

/-- A step meets the condition if the states it leads to have the property. -/
theorem along_of_throughout
    (needed : ∀ s l, (∀ s', step s l = some s' → property s') → condition s l)
    (throughout : Throughout step property ls s) : Along step condition ls s := by
  induction ls generalizing s with
  | nil => trivial
  | cons l ls ih =>
    refine ⟨needed s l fun s' taken => (throughout.2 s' taken).head, fun s' taken => ?_⟩
    exact ih (throughout.2 s' taken)

theorem Throughout.along (throughout : Throughout step property ls s) :
    Along step (fun s _ => property s) ls s := by
  induction ls generalizing s with
  | nil => trivial
  | cons l ls ih => exact ⟨throughout.1, fun s' taken => ih (throughout.2 s' taken)⟩

/-- No step of a run is refused. -/
theorem along_of_run (ran : run step ls s = some s') :
    Along step (fun s l => ∃ s', step s l = some s') ls s := by
  induction ls generalizing s with
  | nil => trivial
  | cons l ls ih =>
    obtain ⟨s₁, first, rest⟩ := bind_eq_some_iff.mp ran
    refine ⟨⟨s₁, first⟩, fun s₂ taken => ?_⟩
    cases first.symm.trans taken
    exact ih rest

/-- What every step that meets the condition preserves holds in all states of a run of such
steps. -/
theorem throughout_of_along {invariant : S → Prop}
    (preserved : ∀ s l s', condition s l → step s l = some s' → invariant s → invariant s')
    (along : Along step condition ls s) (initial : invariant s) :
    Throughout step invariant ls s := by
  induction ls generalizing s with
  | nil => exact initial
  | cons l ls ih =>
    refine ⟨initial, fun s' taken => ih (along.2 s' taken) ?_⟩
    exact preserved s l s' along.1 taken initial

theorem Throughout.mono {first second : S → Prop} (weaker : ∀ s, first s → second s)
    (throughout : Throughout step first ls s) : Throughout step second ls s := by
  induction ls generalizing s with
  | nil => exact weaker s throughout
  | cons l ls ih => exact ⟨weaker s throughout.1, fun s' taken => ih (throughout.2 s' taken)⟩

theorem Throughout.last (throughout : Throughout step property ls s)
    (ran : run step ls s = some s') :
    property s' := by
  induction ls generalizing s with
  | nil =>
    cases ran
    exact throughout
  | cons l ls ih =>
    obtain ⟨s₁, first, rest⟩ := bind_eq_some_iff.mp ran
    exact ih (throughout.2 s₁ first) rest

/-- What every step that meets the condition preserves, a run of such steps preserves. -/
theorem invariant_of_run {condition : S → L → Prop} {invariant : S → Prop}
    (preserved : ∀ s l s', condition s l → step s l = some s' → invariant s → invariant s')
    {ls : List L} {s s' : S} (ran : run step ls s = some s') (along : Along step condition ls s)
    (initial : invariant s) : invariant s' := by
  induction ls generalizing s with
  | nil =>
    cases ran
    exact initial
  | cons l ls ih =>
    obtain ⟨s₁, first, rest⟩ := bind_eq_some_iff.mp ran
    exact ih rest (along.2 s₁ first) (preserved s l s₁ along.1 first initial)

/-- What every step preserves, every run preserves. -/
theorem run_preserves (invariant : S → Prop)
    (preserved : ∀ s l s', step s l = some s' → invariant s → invariant s') {ls : List L}
    {s s' : S} (ran : run step ls s = some s') (initial : invariant s) : invariant s' :=
  invariant_of_run (fun s l s' _ => preserved s l s') ran (along_of_forall fun _ _ => trivial)
    initial

/-- An invariant of the states and of what was shown before them. -/
theorem trace_preserves {E : Type} {shows : L → S → List E} (invariant : S → List E → Prop)
    (preserved : ∀ s l s' es, step s l = some s' → invariant s es → invariant s' (es ++ shows l s'))
    {ls : List L} {s s' : S} {es : List E} (ran : run step ls s = some s')
    (initial : invariant s es) : invariant s' (es ++ trace step shows ls s) := by
  induction ls generalizing s es with
  | nil =>
    cases ran
    rw [trace, append_nil]
    exact initial
  | cons l ls ih =>
    obtain ⟨s₁, first, rest⟩ := bind_eq_some_iff.mp ran
    rw [trace, first, map_some, getD_some, ← append_assoc]
    exact ih rest (preserved s l s₁ es first initial)

/-- What is preserved by steps between states that all have a property. -/
theorem invariant_of_run_throughout {condition : S → L → Prop} {property invariant : S → Prop}
    (preserved : ∀ s l s', condition s l → property s → property s' →
      step s l = some s' → invariant s → invariant s')
    {ls : List L} {s s' : S} (ran : run step ls s = some s') (along : Along step condition ls s)
    (throughout : Throughout step property ls s) (initial : invariant s) : invariant s' := by
  induction ls generalizing s with
  | nil =>
    cases ran
    exact initial
  | cons l ls ih =>
    obtain ⟨s₁, first, rest⟩ := bind_eq_some_iff.mp ran
    have after := throughout.2 s₁ first
    exact ih rest (along.2 s₁ first) after
      (preserved s l s₁ along.1 throughout.1 after.head first initial)

end Gain
