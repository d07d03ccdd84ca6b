import Mathlib.Data.List.Forall2
import EmojiBattler.Library.CallMachine

/-! # Simulations of computations that may fail

One computation simulates another if it succeeds whenever the other does, with
a related value.  Nothing is said about errors.  The relation is established
part by part, and along the runs of a machine task by task. -/

namespace Simulation

universe u v w

variable {ε : Type u} {δ : Type v} {α β γ κ : Type w}

def Simulates (related : α → β → Prop) (left : Except ε α) (right : Except δ β) : Prop :=
  ∀ value, left = .ok value → ∃ image, right = .ok image ∧ related value image

/-- The image of a value is determined by the value. -/
abbrev Maps (f : α → β) (left : Except ε α) (right : Except δ β) : Prop :=
  Simulates (fun value image => image = f value) left right

namespace Simulates

variable {related : α → β → Prop} {left : Except ε α} {right : Except δ β}

theorem pure {value : α} {image : β} (holds : related value image) :
    @Simulates ε δ _ _ related (pure value) (pure image) := by
  intro other same
  cases same
  exact ⟨image, rfl, holds⟩

theorem error {failure : ε} : Simulates related (.error failure) right :=
  fun _ same => nomatch same

/-- What is known of the value may be added to the relation. -/
theorem and_performed (simulates : Simulates related left right) :
    Simulates (fun value image => left = .ok value ∧ related value image) left right := by
  intro value performed
  obtain ⟨image, reached, holds⟩ := simulates value performed
  exact ⟨image, reached, performed, holds⟩

theorem bind {later : γ → κ → Prop} {next : α → Except ε γ} {nextImage : β → Except δ κ}
    (first : Simulates related left right)
    (second : ∀ value image, related value image →
      Simulates later (next value) (nextImage image)) :
    Simulates later (left >>= next) (right >>= nextImage) := by
  intro last performed
  cases left with
  | error failure => cases performed
  | ok value =>
      obtain ⟨image, rfl, holds⟩ := first value rfl
      exact second value image holds last performed

theorem map {later : γ → κ → Prop} {f : α → γ} {g : β → κ}
    (first : Simulates related left right)
    (mapped : ∀ value image, related value image → later (f value) (g image)) :
    Simulates later (f <$> left) (g <$> right) := by
  intro last performed
  cases left with
  | error failure => cases performed
  | ok value =>
      obtain ⟨image, rfl, holds⟩ := first value rfl
      cases performed
      exact ⟨g image, rfl, mapped value image holds⟩

/-- A loop over images, each iteration of which is simulated. -/
theorem foldlM {f : α → γ → Except ε α} {g : β → κ → Except δ β} {image : γ → κ}
    (step : ∀ state imageState value, related state imageState →
      Simulates related (f state value) (g imageState (image value)))
    (values : List γ) {start : α} {startImage : β} (initial : related start startImage) :
    Simulates related (values.foldlM f start) ((values.map image).foldlM g startImage) := by
  induction values generalizing start startImage with
  | nil => exact pure initial
  | cons value rest ih =>
      rw [List.map_cons, List.foldlM_cons, List.foldlM_cons]
      exact (step start startImage value initial).bind fun _ _ holds => ih holds

end Simulates

namespace Maps

variable {f : α → β} {left : Except ε α} {right : Except δ β}

theorem pure (f : α → β) (value : α) :
    @Maps ε δ _ _ f (pure value) (pure (f value)) :=
  Simulates.pure rfl

theorem bind {later : γ → κ → Prop} {next : α → Except ε γ} {nextImage : β → Except δ κ}
    (first : Maps f left right)
    (second : ∀ value, Simulates later (next value) (nextImage (f value))) :
    Simulates later (left >>= next) (right >>= nextImage) :=
  Simulates.bind first fun value _ same => same ▸ second value

theorem refl (computation : Except ε α) : Maps id computation computation :=
  fun value performed => ⟨value, performed, rfl⟩

end Maps

/-! ## Runs -/

open CallMachine

variable {Task : Type u} {State : Type v} {Error : Type w}
variable {Task' : Type u} {State' : Type v} {Error' : Type w}
variable {machine : Machine Task State Error} {machine' : Machine Task' State' Error'}

/-- With the same fuel the image of a run ends in the image of its end.  The
steps need to be simulated only as far as the bound allows: a state that the
run leaves within the bound was within it. -/
theorem run_simulates {image : Task → Task'} {related : State → State' → Prop}
    {bound : State → Prop}
    (within : ∀ {stack state last}, Returns machine ⟨stack, state⟩ last → bound last → bound state)
    (step : ∀ {task calls state state' after}, related state state' → bound after →
      machine task state = .ok (calls, after) →
      ∃ after', machine' (image task) state' = .ok (calls.map image, after') ∧
        related after after')
    {fuel : Nat} {stack : List Task} {state last : State} {state' : State'}
    (initial : related state state') (bounded : bound last)
    (performed : run machine fuel stack state = some (.ok last)) :
    ∃ last', run machine' fuel (stack.map image) state' = some (.ok last') ∧
      related last last' := by
  induction fuel generalizing stack state state' with
  | zero =>
      cases stack with
      | nil =>
          cases performed
          exact ⟨state', rfl, initial⟩
      | cons task rest => cases performed
  | succ fuel ih =>
      cases stack with
      | nil =>
          cases performed
          exact ⟨state', rfl, initial⟩
      | cons task rest =>
          cases first : machine task state with
          | error failure =>
              simp only [run, first] at performed
              cases performed
          | ok result =>
              obtain ⟨calls, after⟩ := result
              simp only [run, first] at performed
              have here := within (run_ok_returns performed) bounded
              obtain ⟨after', reached, holds⟩ := step initial here first
              obtain ⟨last', rest, related⟩ := ih holds performed
              refine ⟨last', ?_, related⟩
              simp only [List.map_cons, run, reached]
              rwa [← List.map_append]

end Simulation
