import Mathlib.Algebra.Group.Hom.Defs
import Mathlib.Algebra.Group.Nat.Defs
import EmojiBattler.Library.Termination

/-! # Runs and what their steps add up to

A meter assigns an amount to every step; a metered run carries their sum.  A
bound on what the steps of a run add to a measure of the state bounds what the
same steps can take from it again. -/

namespace CallMachine

universe u v w

variable {Task : Type u} {State : Type v} {Error : Type w} {M N : Type*}
variable [AddMonoid M] [AddMonoid N]

/-- A run and the sum of its steps. -/
inductive MeteredRun (machine : Machine Task State Error)
    (meter : Config Task State → Config Task State → M) (start : Config Task State) :
    M → Config Task State → Prop
  | start : MeteredRun machine meter start 0 start
  | step {total : M} {before after : Config Task State}
      (run : MeteredRun machine meter start total before) (step : Step machine before after) :
      MeteredRun machine meter start (total + meter before after) after

namespace MeteredRun

variable {machine : Machine Task State Error}
variable {meter : Config Task State → Config Task State → M}
variable {start middle last : Config Task State} {total : M}

theorem reaches (run : MeteredRun machine meter start total last) :
    Reaches machine start last := by
  induction run with
  | start => exact .refl
  | step _ step ih => exact ih.tail step

/-- A run goes on with the sum that it has. -/
theorem extend (run : MeteredRun machine meter start total middle)
    (reached : Reaches machine middle last) :
    ∃ more, MeteredRun machine meter start (total + more) last := by
  induction reached with
  | refl => exact ⟨0, by rwa [add_zero]⟩
  | @tail before after _ step ih =>
      obtain ⟨more, run⟩ := ih
      refine ⟨more + meter before after, ?_⟩
      rw [← add_assoc]
      exact run.step step

theorem of_reaches (reached : Reaches machine start last) :
    ∃ total, MeteredRun machine meter start total last := by
  have empty : MeteredRun machine meter start 0 start := .start
  obtain ⟨total, run⟩ := empty.extend reached
  exact ⟨_, run⟩

theorem map (f : M →+ N) (run : MeteredRun machine meter start total last) :
    MeteredRun machine (fun before after => f (meter before after)) start (f total) last := by
  induction run with
  | start =>
      rw [map_zero]
      exact .start
  | step _ step ih =>
      rw [map_add]
      exact ih.step step

/-- A run is empty or starts with its first step. -/
theorem cases_head (run : MeteredRun machine meter start total last) :
    total = 0 ∨ ∃ next rest, Step machine start next ∧ total = meter start next + rest ∧
      MeteredRun machine meter next rest last := by
  have empty_or_step : (total = 0 ∧ start = last) ∨ ∃ next rest, Step machine start next ∧
      total = meter start next + rest ∧ MeteredRun machine meter next rest last := by
    induction run with
    | start => exact .inl ⟨rfl, rfl⟩
    | @step total before after _ step ih =>
        rcases ih with ⟨rfl, rfl⟩ | ⟨next, rest, first, rfl, run⟩
        · exact .inr ⟨after, 0, step, by rw [zero_add, add_zero], .start⟩
        · exact .inr ⟨next, rest + meter before after, first, add_assoc .., run.step step⟩
  exact empty_or_step.imp_left And.left

end MeteredRun

/-! ## What the steps of a run add to a measure -/

/-- What a step adds to the measure, if it adds to it. -/
def lift (measure : State → Nat) (before after : Config Task State) : Nat :=
  measure after.state - measure before.state

variable {machine : Machine Task State Error} {measure : State → Nat}
variable {start last : Config Task State} {bound : Nat}

/-- If all that a run adds to the measure is bounded, from some point on it adds
nothing.  The induction is on what is left of the bound. -/
theorem exists_neverLifts_of_bounded
    (bounded : ∀ total last, MeteredRun machine (lift measure) start total last →
      total ≤ bound) :
    ∃ middle, Reaches machine start middle ∧ NeverLifts machine measure middle := by
  have onward : ∀ left total middle, MeteredRun machine (lift measure) start total middle →
      bound - total = left →
      ∃ middle, Reaches machine start middle ∧ NeverLifts machine measure middle := by
    intro left
    induction left using Nat.strongRecOn with
    | ind left ih =>
        intro total middle run remaining
        by_cases never : NeverLifts machine measure middle
        · exact ⟨middle, run.reaches, never⟩
        · simp only [NeverLifts, not_forall, Nat.not_le] at never
          obtain ⟨task, state, calls, after, ⟨rest, reached⟩, performed, lifts⟩ := never
          obtain ⟨more, before⟩ := run.extend reached
          have next := before.step (.call performed)
          have within := bounded _ _ next
          have added : 0 < lift measure ⟨task :: rest, state⟩ ⟨calls ++ rest, after⟩ :=
            Nat.sub_pos_of_lt lifts
          exact ih _ (by omega) _ _ next rfl
  exact onward _ _ start .start rfl

/-! ## The executable sum -/

/-- The sum of all steps of a run that ends within the fuel, and where it ends. -/
def runMeter (machine : Machine Task State Error)
    (meter : Config Task State → Config Task State → Nat) :
    Nat → Config Task State → Option (Nat × State)
  | _, ⟨[], state⟩ => some (0, state)
  | 0, ⟨_ :: _, _⟩ => none
  | fuel + 1, ⟨task :: rest, state⟩ =>
      match machine task state with
      | .error _ => none
      | .ok (calls, after) =>
          (runMeter machine meter fuel ⟨calls ++ rest, after⟩).map fun (total, final) =>
            (meter ⟨task :: rest, state⟩ ⟨calls ++ rest, after⟩ + total, final)

variable {meter : Config Task State → Config Task State → Nat}

theorem runMeter_returns {fuel total : Nat} {final : State}
    (executed : runMeter machine meter fuel start = some (total, final)) :
    Returns machine start final := by
  induction fuel generalizing start total with
  | zero =>
      obtain ⟨stack, state⟩ := start
      cases stack with
      | nil =>
          cases executed
          exact .refl
      | cons task rest => cases executed
  | succ fuel ih =>
      obtain ⟨stack, state⟩ := start
      cases stack with
      | nil =>
          cases executed
          exact .refl
      | cons task rest =>
          simp only [runMeter] at executed
          split at executed
          · cases executed
          · rename_i performed
            obtain ⟨⟨_, _⟩, executedRest, same⟩ := Option.map_eq_some_iff.mp executed
            cases same
            exact .cons performed (ih executedRest)

/-- No part of a run sums up to more than the whole run. -/
theorem MeteredRun.le_runMeter {fuel whole total : Nat} {final : State}
    (executed : runMeter machine meter fuel start = some (whole, final))
    (run : MeteredRun machine meter start total last) : total ≤ whole := by
  induction fuel generalizing start whole total with
  | zero =>
      obtain ⟨stack, state⟩ := start
      rcases run.cases_head with rfl | ⟨next, rest, step, _⟩
      · exact Nat.zero_le _
      · cases step
        cases executed
  | succ fuel ih =>
      rcases run.cases_head with rfl | ⟨next, rest, step, rfl, later⟩
      · exact Nat.zero_le _
      · cases step with
        | call performed =>
            simp only [runMeter, performed] at executed
            obtain ⟨⟨_, _⟩, executedRest, same⟩ := Option.map_eq_some_iff.mp executed
            cases same
            exact Nat.add_le_add_left (ih executedRest later) _

end CallMachine
