import Mathlib.Logic.Relation
import Mathlib.Data.List.Basic

/-! # Machines of nested calls

A program whose functions call each other is cut at its calls.  A task is one
call that is due, together with its arguments.  Performing a task changes the
state and names the calls it makes, in order; they are run before anything
that was already waiting.  The stack of waiting tasks is therefore the call
stack of the program, with every pending loop iteration spelled out, and an
invariant of the program can speak about what is still going to happen.

Nothing here depends on what the tasks are.
-/

namespace CallMachine

universe u v w

/-- Performing a task either fails or yields the calls it makes and the state
they start from. -/
abbrev Machine (Task : Type u) (State : Type v) (Error : Type w) :=
  Task → State → Except Error (List Task × State)

/-- The tasks that wait, the next one first, and the state they will find. -/
structure Config (Task : Type u) (State : Type v) where
  stack : List Task
  state : State

variable {Task : Type u} {State : Type v} {Error : Type w}
variable {machine : Machine Task State Error}

/-- Executes at most `fuel` tasks.  `none` means that the fuel ran out. -/
def run (machine : Machine Task State Error) :
    Nat → List Task → State → Option (Except Error State)
  | _, [], state => some (.ok state)
  | 0, _ :: _, _ => none
  | fuel + 1, task :: rest, state =>
      match machine task state with
      | .error error => some (.error error)
      | .ok (calls, after) => run machine fuel (calls ++ rest) after

inductive Step (machine : Machine Task State Error) :
    Config Task State → Config Task State → Prop where
  | call {task : Task} {rest calls : List Task} {state after : State}
      (performed : machine task state = .ok (calls, after)) :
      Step machine ⟨task :: rest, state⟩ ⟨calls ++ rest, after⟩

abbrev Reaches (machine : Machine Task State Error) :
    Config Task State → Config Task State → Prop :=
  Relation.ReflTransGen (Step machine)

/-- The run that starts at `start` ends without an error, in state `after`. -/
def Returns (machine : Machine Task State Error) (start : Config Task State)
    (after : State) : Prop :=
  Reaches machine start ⟨[], after⟩

/-- No step is left: the stack is empty or the next task fails. -/
def Halted (machine : Machine Task State Error) : Config Task State → Prop
  | ⟨[], _⟩ => True
  | ⟨task :: _, state⟩ => ∃ error, machine task state = .error error

/-- The run that starts at `start` is finite. -/
def Terminates (machine : Machine Task State Error) (start : Config Task State) : Prop :=
  ∃ last, Reaches machine start last ∧ Halted machine last

/-! ## Determinism -/

theorem Step.deterministic {before left right : Config Task State}
    (first : Step machine before left) (second : Step machine before right) :
    left = right := by
  cases first with
  | call performed =>
      cases second with
      | call again =>
          rw [performed] at again
          cases again
          rfl

theorem not_step_of_halted {last next : Config Task State}
    (halted : Halted machine last) : ¬ Step machine last next := by
  intro step
  cases step with
  | call performed =>
      obtain ⟨error, failed⟩ := halted
      rw [performed] at failed
      cases failed

/-- A halted configuration is the end of every run that passes through its
ancestors. -/
theorem Reaches.to_halted {start middle last : Config Task State}
    (left : Reaches machine start middle) (right : Reaches machine start last)
    (halted : Halted machine last) : Reaches machine middle last := by
  induction left with
  | refl => exact right
  | tail _ step ih =>
      rcases Relation.ReflTransGen.cases_head ih with same | ⟨next, other, rest⟩
      · subst same
        exact absurd step (not_step_of_halted halted)
      · rwa [step.deterministic other]

theorem Returns.of_reaches {start middle : Config Task State} {after : State}
    (returned : Returns machine start after) (reached : Reaches machine start middle) :
    Returns machine middle after :=
  Reaches.to_halted reached returned trivial

theorem Returns.unique {start : Config Task State} {left right : State}
    (first : Returns machine start left) (second : Returns machine start right) :
    left = right := by
  have rest := first.of_reaches second
  rcases Relation.ReflTransGen.cases_head rest with same | ⟨next, step, _⟩
  · cases same
    rfl
  · exact absurd step (not_step_of_halted trivial)

/-! ## Invariants -/

/-- What holds at the start and survives every task holds of every
configuration of the run. -/
theorem Reaches.invariant {P : Config Task State → Prop}
    (preserved : ∀ {task rest calls state after}, P ⟨task :: rest, state⟩ →
      machine task state = .ok (calls, after) → P ⟨calls ++ rest, after⟩)
    {start last : Config Task State} (reached : Reaches machine start last)
    (initial : P start) : P last := by
  induction reached with
  | refl => exact initial
  | tail _ step ih =>
      cases step with
      | call performed => exact preserved ih performed

/-- A property of the state alone that every task preserves. -/
theorem Reaches.state_invariant {P : State → Prop}
    (preserved : ∀ {task calls state after}, P state →
      machine task state = .ok (calls, after) → P after)
    {start last : Config Task State} (reached : Reaches machine start last)
    (initial : P start.state) : P last.state :=
  Reaches.invariant (P := fun config => P config.state)
    (fun holds performed => preserved holds performed) reached initial

/-- A condition that can never be left, and that the end of a run excludes,
is excluded from the beginning. -/
theorem Returns.excludes {bad : Config Task State → Prop}
    (stays : ∀ {task rest calls state after}, bad ⟨task :: rest, state⟩ →
      machine task state = .ok (calls, after) → bad ⟨calls ++ rest, after⟩)
    {start : Config Task State} {after : State} (returned : Returns machine start after)
    (unfinished : ¬ bad ⟨[], after⟩) : ¬ bad start :=
  fun holds => unfinished (Reaches.invariant stays returned holds)

/-! ## Runs under a condition on their steps -/

/-- The run that starts at `start` performs the task in this state. -/
def PerformedIn (machine : Machine Task State Error) (start : Config Task State) (task : Task)
    (state : State) : Prop :=
  ∃ rest, Reaches machine start ⟨task :: rest, state⟩

/-- An invariant of a run all of whose tasks meet a condition. -/
theorem Reaches.invariant_of_performed {met : Task → State → Prop} {P : Config Task State → Prop}
    {start last : Config Task State}
    (meets : ∀ task state, PerformedIn machine start task state → met task state)
    (preserved : ∀ {task rest calls state after}, P ⟨task :: rest, state⟩ → met task state →
      machine task state = .ok (calls, after) → P ⟨calls ++ rest, after⟩)
    (reached : Reaches machine start last) (initial : P start) : P last := by
  have run := Reaches.invariant (P := fun config => Reaches machine start config ∧ P config)
    (fun {task rest calls state after} holds performed => by
      obtain ⟨before, holds⟩ := holds
      exact ⟨before.tail (.call performed),
        preserved holds (meets task state ⟨rest, before⟩) performed⟩)
    reached ⟨.refl, initial⟩
  exact run.2

/-- Where every step keeps a property of the state exactly if its task meets a
condition, all states have the property exactly if all tasks meet the
condition. -/
theorem state_invariant_iff {met : Task → State → Prop} {P : State → Prop}
    {start : Config Task State} (initial : P start.state)
    (step_iff : ∀ {task calls state after}, P state → machine task state = .ok (calls, after) →
      (P after ↔ met task state)) :
    (∀ last, Reaches machine start last → P last.state) ↔
      ∀ task state calls after, PerformedIn machine start task state →
        machine task state = .ok (calls, after) → met task state := by
  constructor
  · intro holds task state calls after performedIn performed
    obtain ⟨rest, reached⟩ := performedIn
    exact (step_iff (holds _ reached) performed).mp (holds _ (reached.tail (.call performed)))
  · intro meets last reached
    induction reached with
    | refl => exact initial
    | tail before step ih =>
        cases step with
        | call performed =>
            exact (step_iff ih performed).mpr (meets _ _ _ _ ⟨_, before⟩ performed)

/-- Where no step restores a property that is lost, a run that returns ends with
it exactly if each of its steps keeps it. -/
theorem Returns.property_iff {met : Task → State → Config Task State → Prop}
    {P : Config Task State → Prop} {start : Config Task State} {last : State}
    (initial : P start)
    (step_iff : ∀ {task rest calls state after}, P ⟨task :: rest, state⟩ →
      machine task state = .ok (calls, after) →
      (P ⟨calls ++ rest, after⟩ ↔ met task state ⟨calls ++ rest, after⟩))
    (lost : ∀ {task rest calls state after}, ¬ P ⟨task :: rest, state⟩ →
      machine task state = .ok (calls, after) → ¬ P ⟨calls ++ rest, after⟩)
    (returned : Returns machine start last) :
    P ⟨[], last⟩ ↔ ∀ task rest state calls after, Reaches machine start ⟨task :: rest, state⟩ →
      machine task state = .ok (calls, after) → met task state ⟨calls ++ rest, after⟩ := by
  constructor
  · intro final task rest state calls after reached performed
    have kept {middle : Config Task State} (reached : Reaches machine start middle) : P middle := by
      by_contra spoiled
      exact @Returns.excludes _ _ _ machine (fun config => ¬ P config) lost _ _
        (returned.of_reaches reached) (not_not.mpr final) spoiled
    exact (step_iff (kept reached) performed).mp (kept (reached.tail (.call performed)))
  · intro meets
    have run := Reaches.invariant (P := fun config => Reaches machine start config ∧ P config)
      (fun {task rest calls state after} holds performed => by
        obtain ⟨before, holds⟩ := holds
        exact ⟨before.tail (.call performed),
          (step_iff holds performed).mpr (meets task rest state calls after before performed)⟩)
      returned ⟨.refl, initial⟩
    exact run.2

/-- A run all of whose steps meet `guard`. -/
abbrev GuardedReaches (machine : Machine Task State Error)
    (guard : Config Task State → Config Task State → Prop) :
    Config Task State → Config Task State → Prop :=
  Relation.ReflTransGen fun before after => Step machine before after ∧ guard before after

variable {guard : Config Task State → Config Task State → Prop}

theorem GuardedReaches.single
    (guard : Config Task State → Config Task State → Prop) {before after : Config Task State}
    (step : Step machine before after) (met : guard before after) :
    GuardedReaches machine guard before after :=
  Relation.ReflTransGen.single ⟨step, met⟩

theorem GuardedReaches.reaches {start last : Config Task State}
    (reached : GuardedReaches machine guard start last) : Reaches machine start last :=
  Relation.ReflTransGen.mono (fun _ _ both => both.1) _ _ reached

theorem GuardedReaches.invariant {P : Config Task State → Prop}
    (preserved : ∀ {task rest calls state after}, P ⟨task :: rest, state⟩ →
      machine task state = .ok (calls, after) →
      guard ⟨task :: rest, state⟩ ⟨calls ++ rest, after⟩ → P ⟨calls ++ rest, after⟩)
    {start last : Config Task State} (reached : GuardedReaches machine guard start last)
    (initial : P start) : P last := by
  induction reached with
  | refl => exact initial
  | tail _ both ih =>
      obtain ⟨step, met⟩ := both
      cases step with
      | call performed => exact preserved ih performed met

/-! ## Sequencing -/

/-- What waits below does not influence a run. -/
theorem Step.append {before after : Config Task State} (step : Step machine before after)
    (waiting : List Task) :
    Step machine ⟨before.stack ++ waiting, before.state⟩ ⟨after.stack ++ waiting, after.state⟩ := by
  cases step with
  | call performed =>
      simpa only [List.append_assoc, List.cons_append] using
        @Step.call _ _ _ _ _ (_ ++ waiting) _ _ _ performed

theorem Reaches.append {before after : Config Task State}
    (reached : Reaches machine before after) (waiting : List Task) :
    Reaches machine ⟨before.stack ++ waiting, before.state⟩
      ⟨after.stack ++ waiting, after.state⟩ := by
  induction reached with
  | refl => exact .refl
  | tail _ step ih => exact ih.tail (step.append waiting)

/-- What waits below a run finds the state in which it returns. -/
theorem Returns.below {stack : List Task} {state after : State}
    (returned : Returns machine ⟨stack, state⟩ after) (waiting : List Task) :
    Reaches machine ⟨stack ++ waiting, state⟩ ⟨waiting, after⟩ :=
  Reaches.append returned waiting

theorem Returns.cons {task : Task} {rest calls : List Task} {state next after : State}
    (performed : machine task state = .ok (calls, next))
    (returned : Returns machine ⟨calls ++ rest, next⟩ after) :
    Returns machine ⟨task :: rest, state⟩ after :=
  Relation.ReflTransGen.head (.call performed) returned

theorem Returns.cons_inv {task : Task} {rest : List Task} {state after : State}
    (returned : Returns machine ⟨task :: rest, state⟩ after) :
    ∃ calls next, machine task state = .ok (calls, next) ∧
      Returns machine ⟨calls ++ rest, next⟩ after := by
  rcases Relation.ReflTransGen.cases_head returned with same | ⟨next, step, reached⟩
  · cases same
  · cases step with
    | call performed => exact ⟨_, _, performed, reached⟩

@[simp] theorem returns_nil_iff {state after : State} :
    Returns machine ⟨[], state⟩ after ↔ state = after := by
  constructor
  · intro returned
    exact @Returns.unique _ _ _ machine _ _ _ .refl returned
  · rintro rfl
    exact .refl

/-! ## The executable run -/

theorem run_ok_returns {fuel : Nat} {stack : List Task} {state after : State}
    (executed : run machine fuel stack state = some (.ok after)) :
    Returns machine ⟨stack, state⟩ after := by
  induction fuel generalizing stack state with
  | zero =>
      cases stack with
      | nil =>
          cases executed
          exact .refl
      | cons task rest => cases executed
  | succ fuel ih =>
      cases stack with
      | nil =>
          cases executed
          exact .refl
      | cons task rest =>
          simp only [run] at executed
          split at executed
          · cases executed
          · rename_i performed
            exact .cons performed (ih executed)

theorem run_isSome_terminates (fuel : Nat) {stack : List Task} {state : State}
    (executed : (run machine fuel stack state).isSome) :
    Terminates machine ⟨stack, state⟩ := by
  induction fuel generalizing stack state with
  | zero =>
      cases stack with
      | nil => exact ⟨_, .refl, trivial⟩
      | cons task rest => cases executed
  | succ fuel ih =>
      cases stack with
      | nil => exact ⟨_, .refl, trivial⟩
      | cons task rest =>
          simp only [run] at executed
          split at executed
          · rename_i error failed
            exact ⟨_, .refl, error, failed⟩
          · rename_i performed
            obtain ⟨last, reached, halted⟩ := ih executed
            exact ⟨last, Relation.ReflTransGen.head (.call performed) reached, halted⟩

theorem returns_run_ok {start : Config Task State} {after : State}
    (returned : Returns machine start after) :
    ∃ fuel, run machine fuel start.stack start.state = some (.ok after) := by
  replace returned : Reaches machine start ⟨[], after⟩ := returned
  induction returned using Relation.ReflTransGen.head_induction_on with
  | refl => exact ⟨0, rfl⟩
  | head step _ ih =>
      cases step with
      | call performed =>
          obtain ⟨fuel, executed⟩ := ih
          exact ⟨fuel + 1, by simpa only [run, performed] using executed⟩

/-- A run that returns comes to what waits below. -/
theorem Returns.reaches_below {above below : List Task} {state after : State}
    (returned : Returns machine ⟨above ++ below, state⟩ after) :
    ∃ middle, Reaches machine ⟨above ++ below, state⟩ ⟨below, middle⟩ := by
  obtain ⟨fuel, executed⟩ := returns_run_ok returned
  clear returned
  induction fuel generalizing above state with
  | zero =>
      cases above with
      | nil => exact ⟨state, .refl⟩
      | cons task rest => cases executed
  | succ fuel ih =>
      cases above with
      | nil => exact ⟨state, .refl⟩
      | cons task rest =>
          simp only [List.cons_append, run] at executed
          split at executed
          · cases executed
          · rename_i calls next performed
            rw [← List.append_assoc] at executed
            obtain ⟨middle, reached⟩ := ih executed
            rw [List.append_assoc] at reached
            exact ⟨middle, Relation.ReflTransGen.head (.call performed) reached⟩

theorem exists_run_ok_iff {stack : List Task} {state after : State} :
    (∃ fuel, run machine fuel stack state = some (.ok after)) ↔
      Returns machine ⟨stack, state⟩ after :=
  ⟨fun ⟨_, executed⟩ => run_ok_returns executed, fun returned => returns_run_ok returned⟩

/-- A finite run ends without an error exactly when no configuration on its
way is one whose next task fails. -/
theorem exists_returns_iff {start : Config Task State}
    (terminates : Terminates machine start) :
    (∃ after, Returns machine start after) ↔
      ∀ task rest state, Reaches machine start ⟨task :: rest, state⟩ →
        ∃ result, machine task state = .ok result := by
  constructor
  · rintro ⟨after, returned⟩ task rest state reached
    obtain ⟨calls, next, performed, _⟩ := (returned.of_reaches reached).cons_inv
    exact ⟨(calls, next), performed⟩
  · intro succeeds
    obtain ⟨⟨stack, state⟩, reached, halted⟩ := terminates
    cases stack with
    | nil => exact ⟨state, reached⟩
    | cons task rest =>
        obtain ⟨error, failed⟩ := halted
        obtain ⟨result, performed⟩ := succeeds task rest state reached
        rw [performed] at failed
        cases failed

/-- The error that a run ends with. -/
def runError (machine : Machine Task State Error) (fuel : Nat) (stack : List Task)
    (state : State) : Option Error :=
  match run machine fuel stack state with
  | some (.error error) => some error
  | _ => none

/-- A run that ends with an error is finite and does not return. -/
theorem terminates_of_runError {fuel : Nat} {stack : List Task} {state : State} {error : Error}
    (failed : runError machine fuel stack state = some error) :
    Terminates machine ⟨stack, state⟩ ∧ ¬ ∃ after, Returns machine ⟨stack, state⟩ after := by
  induction fuel generalizing stack state with
  | zero => cases stack <;> cases failed
  | succ fuel ih =>
      cases stack with
      | nil => cases failed
      | cons task rest =>
          cases performed : machine task state with
          | error error =>
              refine ⟨⟨_, .refl, error, performed⟩, fun ⟨after, returned⟩ => ?_⟩
              obtain ⟨_, _, succeeded, _⟩ := returned.cons_inv
              rw [performed] at succeeded
              cases succeeded
          | ok result =>
              obtain ⟨calls, next⟩ := result
              simp only [runError, run, performed] at failed
              obtain ⟨⟨last, reached, halted⟩, never⟩ := ih failed
              refine ⟨⟨last, Relation.ReflTransGen.head (.call performed) reached, halted⟩, ?_⟩
              rintro ⟨after, returned⟩
              obtain ⟨_, _, succeeded, rest⟩ := returned.cons_inv
              rw [performed] at succeeded
              cases succeeded
              exact never ⟨after, rest⟩

/-- The configuration after exactly `count` tasks, if none of them fails. -/
def advance (machine : Machine Task State Error) :
    Nat → Config Task State → Option (Config Task State)
  | 0, config => some config
  | _ + 1, ⟨[], _⟩ => none
  | count + 1, ⟨task :: rest, state⟩ =>
      match machine task state with
      | .error _ => none
      | .ok (calls, after) => advance machine count ⟨calls ++ rest, after⟩

theorem advance_reaches {count : Nat} {start last : Config Task State}
    (advanced : advance machine count start = some last) : Reaches machine start last := by
  induction count generalizing start with
  | zero =>
      cases advanced
      exact .refl
  | succ count ih =>
      obtain ⟨stack, state⟩ := start
      cases stack with
      | nil => cases advanced
      | cons task rest =>
          simp only [advance] at advanced
          split at advanced
          · cases advanced
          · rename_i performed
            exact Relation.ReflTransGen.head (.call performed) (ih advanced)

theorem exists_reached_of_advance (count : Nat) {start : Config Task State}
    {holds : Config Task State → Bool} (found : (advance machine count start).any holds) :
    ∃ last, Reaches machine start last ∧ holds last := by
  obtain ⟨last, advanced, met⟩ := (Option.any_eq_true _ _).mp found
  exact ⟨last, advance_reaches advanced, met⟩

/-- The configuration after exactly `count` tasks, if none of them fails and each
of them starts where `met` holds. -/
def advanceWhile (machine : Machine Task State Error) (met : Config Task State → Prop)
    [DecidablePred met] : Nat → Config Task State → Option (Config Task State)
  | 0, config => some config
  | _ + 1, ⟨[], _⟩ => none
  | count + 1, ⟨task :: rest, state⟩ =>
      if met ⟨task :: rest, state⟩ then
        match machine task state with
        | .error _ => none
        | .ok (calls, after) => advanceWhile machine met count ⟨calls ++ rest, after⟩
      else none

theorem advanceWhile_guarded {met : Config Task State → Prop} [DecidablePred met] {count : Nat}
    {start last : Config Task State}
    (advanced : advanceWhile machine met count start = some last) :
    GuardedReaches machine (fun before _ => met before) start last := by
  induction count generalizing start with
  | zero =>
      cases advanced
      exact .refl
  | succ count ih =>
      obtain ⟨stack, state⟩ := start
      cases stack with
      | nil => cases advanced
      | cons task rest =>
          simp only [advanceWhile] at advanced
          split at advanced
          · rename_i holds
            split at advanced
            · cases advanced
            · rename_i performed
              exact Relation.ReflTransGen.head ⟨.call performed, holds⟩ (ih advanced)
          · cases advanced

theorem exists_guarded_of_advanceWhile {met : Config Task State → Prop} [DecidablePred met]
    (count : Nat) {start : Config Task State} {holds : Config Task State → Bool}
    (found : (advanceWhile machine met count start).any holds) :
    ∃ last, GuardedReaches machine (fun before _ => met before) start last ∧ holds last := by
  obtain ⟨last, advanced, reached⟩ := (Option.any_eq_true _ _).mp found
  exact ⟨last, advanceWhile_guarded advanced, reached⟩

end CallMachine
