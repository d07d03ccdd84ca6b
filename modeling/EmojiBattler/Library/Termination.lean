import Mathlib.Order.WellFounded
import EmojiBattler.Library.CallMachine

/-! # Finite runs of nested calls

A run is finite if every task either lowers a level of the state or leaves the
level alone and calls only lighter tasks.  The level bounds what the calls can
do to the state; the weight bounds how deep they nest while the state stays. -/

namespace CallMachine

universe u v w

variable {Task : Type u} {State : Type v} {Error : Type w}
variable {machine : Machine Task State Error}

theorem terminates_nil (state : State) : Terminates machine ⟨[], state⟩ :=
  ⟨_, .refl, trivial⟩

theorem terminates_of_error {task : Task} {rest : List Task} {state : State} {error : Error}
    (failed : machine task state = .error error) : Terminates machine ⟨task :: rest, state⟩ :=
  ⟨_, .refl, error, failed⟩

theorem Terminates.cons {task : Task} {rest calls : List Task} {state after : State}
    (performed : machine task state = .ok (calls, after))
    (terminates : Terminates machine ⟨calls ++ rest, after⟩) :
    Terminates machine ⟨task :: rest, state⟩ := by
  obtain ⟨last, reached, halted⟩ := terminates
  exact ⟨last, Relation.ReflTransGen.head (.call performed) reached, halted⟩

/-- Every finite run ends for some fuel, with a result or with an error. -/
theorem Terminates.exists_run {stack : List Task} {state : State}
    (terminates : Terminates machine ⟨stack, state⟩) :
    ∃ fuel, (run machine fuel stack state).isSome := by
  obtain ⟨last, reached, halted⟩ := terminates
  generalize start : (⟨stack, state⟩ : Config Task State) = config at reached
  induction reached using Relation.ReflTransGen.head_induction_on generalizing stack state with
  | refl =>
      subst start
      refine ⟨1, ?_⟩
      cases stack with
      | nil => rfl
      | cons task rest =>
          obtain ⟨error, failed⟩ := halted
          simp only [run, failed, Option.isSome_some]
  | head step _ ih =>
      subst start
      cases step with
      | call performed =>
          obtain ⟨fuel, executed⟩ := ih rfl
          exact ⟨fuel + 1, by simpa only [run, performed] using executed⟩

/-- A run that ends for some fuel is finite. -/
theorem terminates_of_run {fuel : Nat} {stack : List Task} {state : State}
    (ended : (run machine fuel stack state).isSome) : Terminates machine ⟨stack, state⟩ := by
  induction fuel generalizing stack state with
  | zero =>
      cases stack with
      | nil => exact terminates_nil state
      | cons task rest => cases ended
  | succ fuel ih =>
      cases stack with
      | nil => exact terminates_nil state
      | cons task rest =>
          cases performed : machine task state with
          | error error => exact terminates_of_error performed
          | ok result =>
              obtain ⟨calls, after⟩ := result
              simp only [run, performed] at ended
              exact (ih ended).cons performed

theorem Terminates.of_reaches {start middle : Config Task State}
    (terminates : Terminates machine start) (reached : Reaches machine start middle) :
    Terminates machine middle := by
  obtain ⟨last, further, halted⟩ := terminates
  exact ⟨last, reached.to_halted further halted, halted⟩

/-- What every task does to the level of the state and to the weight of the
tasks, as long as the state is `good`. -/
structure Descending {Level Weight : Type*} [LT Level] [LT Weight]
    (machine : Machine Task State Error) (good : State → Prop) (level : State → Level)
    (weight : Task → Weight) : Prop where
  keeps : ∀ {task calls state after}, good state → machine task state = .ok (calls, after) →
    good after
  descends : ∀ {task calls state after}, good state → machine task state = .ok (calls, after) →
    level after < level state ∨
      (level after = level state ∧ ∀ call ∈ calls, weight call < weight task)

namespace Descending

variable {Level Weight : Type*} [LT Level] [LT Weight] {good : State → Prop}
variable {level : State → Level} {weight : Task → Weight}

/-- One more task on top of a stack that terminates from wherever the task may
leave it.  The induction is on the weight of the task. -/
theorem terminates_cons [WellFoundedLT Weight] (descending : Descending machine good level weight)
    {current : Level}
    (below : ∀ {stack state}, good state → level state < current →
      Terminates machine ⟨stack, state⟩)
    (task : Task) {rest : List Task}
    (waiting : ∀ {state}, good state → level state = current → Terminates machine ⟨rest, state⟩)
    {state : State} (holds : good state) (here : level state = current) :
    Terminates machine ⟨task :: rest, state⟩ := by
  induction lighter : weight task using WellFoundedLT.induction generalizing task rest state with
  | ind bound ih =>
      subst lighter
      cases performed : machine task state with
      | error error => exact terminates_of_error performed
      | ok result =>
          obtain ⟨calls, after⟩ := result
          apply Terminates.cons performed
          have kept := descending.keeps holds performed
          rcases descending.descends holds performed with lower | ⟨same, light⟩
          · exact below kept (here ▸ lower)
          · replace same := same.trans here
            clear performed
            induction calls generalizing after with
            | nil => exact waiting kept same
            | cons call calls later =>
                rw [List.forall_mem_cons] at light
                exact ih (weight call) light.1 call
                  (fun {state} holds here => later state holds light.2 here) kept same rfl

/-- Every run from a good state is finite.  The induction is on the level. -/
theorem terminates [WellFoundedLT Level] [WellFoundedLT Weight]
    (descending : Descending machine good level weight) (stack : List Task) {state : State}
    (holds : good state) : Terminates machine ⟨stack, state⟩ := by
  induction lower : level state using WellFoundedLT.induction generalizing stack state with
  | ind current ih =>
      have below : ∀ {stack state}, good state → level state < current →
          Terminates machine ⟨stack, state⟩ :=
        fun {stack state} holds bound => ih (level state) bound stack holds rfl
      clear ih
      induction stack generalizing state with
      | nil => exact terminates_nil state
      | cons task rest waiting =>
          exact descending.terminates_cons below task waiting holds lower

end Descending

/-! ## Runs that lift a measure only finitely often -/

/-- A machine with the same steps along the run has the same run. -/
theorem Terminates.of_agrees {Other : Type*} {other : Machine Task State Other}
    {start : Config Task State}
    (agrees : ∀ task state, PerformedIn machine start task state →
      ∀ result, other task state = .ok result ↔ machine task state = .ok result)
    (terminates : Terminates other start) : Terminates machine start := by
  obtain ⟨last, reached, halted⟩ := terminates
  have same : Reaches machine start last := by
    clear halted
    induction reached with
    | refl => exact .refl
    | tail _ step ih =>
        cases step with
        | call performed => exact ih.tail (.call ((agrees _ _ ⟨_, ih⟩ _).mp performed))
  refine ⟨last, same, ?_⟩
  obtain ⟨stack, state⟩ := last
  cases stack with
  | nil => trivial
  | cons task rest =>
      obtain ⟨refusal, refused⟩ := halted
      cases performed : machine task state with
      | error error => exact ⟨error, performed⟩
      | ok result =>
          rw [(agrees task state ⟨rest, same⟩ result).mpr performed] at refused
          cases refused

/-- The machine, cut where a step lifts the measure. -/
def withoutLifts (machine : Machine Task State Error) (measure : State → Nat) :
    Machine Task State (Option Error) := fun task state =>
  match machine task state with
  | .ok (calls, after) =>
      if measure state < measure after then .error none else .ok (calls, after)
  | .error error => .error (some error)

theorem withoutLifts_eq_ok_iff {measure : State → Nat} {task : Task} {state : State}
    {result : List Task × State} :
    withoutLifts machine measure task state = .ok result ↔
      machine task state = .ok result ∧ measure result.2 ≤ measure state := by
  unfold withoutLifts
  cases machine task state with
  | error error => simp
  | ok made =>
      dsimp only
      split
      · rename_i lifts
        simp only [reduceCtorEq, false_iff, not_and, Except.ok.injEq]
        rintro rfl
        exact Nat.not_le_of_lt lifts
      · rename_i stays
        simp only [Except.ok.injEq]
        constructor
        · rintro rfl
          exact ⟨rfl, Nat.le_of_not_lt stays⟩
        · exact And.left

/-- No step of the run that starts here lifts the measure. -/
def NeverLifts (machine : Machine Task State Error) (measure : State → Nat)
    (start : Config Task State) : Prop :=
  ∀ task state calls after, PerformedIn machine start task state →
    machine task state = .ok (calls, after) → measure after ≤ measure state

/-- Where a step that does not move the measure calls only lighter tasks, a run
is finite unless it lifts the measure again and again. -/
theorem terminates_iff_neverLifts {Weight : Type*} [LT Weight] [WellFoundedLT Weight]
    {measure : State → Nat} {weight : Task → Weight}
    (moves : ∀ {task calls state after}, machine task state = .ok (calls, after) →
      measure after ≠ measure state ∨ ∀ call ∈ calls, weight call < weight task)
    {start : Config Task State} :
    Terminates machine start ↔
      ∃ middle, Reaches machine start middle ∧ NeverLifts machine measure middle := by
  constructor
  · rintro ⟨last, reached, halted⟩
    refine ⟨last, reached, ?_⟩
    rintro task state calls after ⟨rest, further⟩ performed
    rcases Relation.ReflTransGen.cases_head further with same | ⟨next, step, _⟩
    · subst same
      exact absurd (.call performed) (not_step_of_halted halted)
    · exact absurd step (not_step_of_halted halted)
  · rintro ⟨⟨stack, state⟩, reached, never⟩
    have descending : Descending (withoutLifts machine measure) (fun _ => True) measure
        weight := by
      refine ⟨fun _ _ => trivial, fun {task calls state after} _ performed => ?_⟩
      obtain ⟨performed, bound⟩ := withoutLifts_eq_ok_iff.mp performed
      rcases moves performed with moved | light
      · exact .inl (Nat.lt_of_le_of_ne bound moved)
      · rcases Nat.lt_or_eq_of_le bound with lower | same
        · exact .inl lower
        · exact .inr ⟨same, light⟩
    have finite : Terminates machine ⟨stack, state⟩ := by
      apply Terminates.of_agrees _ (descending.terminates stack trivial)
      intro task before inside result
      rw [withoutLifts_eq_ok_iff, and_iff_left_iff_imp]
      exact never task before result.1 result.2 inside
    obtain ⟨last, rest, halted⟩ := finite
    exact ⟨last, reached.trans rest, halted⟩

/-! ## Endless runs -/

/-- A run that leads from one of these configurations to another, over and over
again, never ends. -/
theorem not_terminates_of_endless {P : Config Task State → Prop}
    (endless : ∀ config, P config →
      ∃ next, Relation.TransGen (Step machine) config next ∧ P next)
    {start : Config Task State} (holds : P start) : ¬ Terminates machine start := by
  -- Whatever the run reaches still leads to one of the configurations.
  have steps : ∀ config, (∃ later, Reaches machine config later ∧ P later) →
      ∃ next, Step machine config next ∧ ∃ later, Reaches machine next later ∧ P later := by
    rintro config ⟨later, reached, recurs⟩
    rcases Relation.ReflTransGen.cases_head reached with rfl | ⟨next, step, rest⟩
    · obtain ⟨again, further, recurs⟩ := endless config recurs
      obtain ⟨next, step, rest⟩ := Relation.TransGen.head'_iff.mp further
      exact ⟨next, step, again, rest, recurs⟩
    · exact ⟨next, step, later, rest, recurs⟩
  rintro ⟨last, reached, halted⟩
  have leads : ∃ later, Reaches machine last later ∧ P later := by
    clear halted
    induction reached with
    | refl => exact ⟨start, .refl, holds⟩
    | tail _ step ih =>
        obtain ⟨next, same, leads⟩ := steps _ ih
        rwa [step.deterministic same]
  obtain ⟨next, step, _⟩ := steps last leads
  exact not_step_of_halted halted step

end CallMachine
