import Mathlib.Data.List.Basic

/-! # Contracts of computations that may fail

A contract says what a result satisfies and which errors may take its place.
It is established part by part, in the order in which the parts are
computed. -/

namespace Contracts

universe u v

variable {ε : Type u} {α β : Type v}

/-- A result of the computation satisfies `post`, an error of it `errors`. -/
def Meets (errors : ε → Prop) (computation : Except ε α) (post : α → Prop) : Prop :=
  match computation with
  | .ok result => post result
  | .error error => errors error

variable {errors : ε → Prop}

@[simp] theorem meets_ok_iff {result : α} {post : α → Prop} :
    Meets errors (.ok result) post ↔ post result := Iff.rfl

@[simp] theorem meets_pure_iff {result : α} {post : α → Prop} :
    Meets errors (pure result) post ↔ post result := Iff.rfl

@[simp] theorem meets_error_iff {error : ε} {post : α → Prop} :
    Meets errors (.error error) post ↔ errors error := Iff.rfl

namespace Meets

variable {computation : Except ε α} {post : α → Prop}

theorem result (meets : Meets errors computation post) {result : α}
    (performed : computation = .ok result) : post result := by
  rwa [performed] at meets

theorem error (meets : Meets errors computation post) {error : ε}
    (failed : computation = .error error) : errors error := by
  rwa [failed] at meets

/-- A contract that allows every error. -/
theorem of_result (implied : ∀ result, computation = .ok result → post result) :
    Meets (fun _ => True) computation post := by
  cases computation with
  | ok result => exact implied result rfl
  | error error => trivial

theorem mono {weaker : α → Prop} (meets : Meets errors computation post)
    (implied : ∀ result, post result → weaker result) : Meets errors computation weaker := by
  cases computation with
  | ok result => exact implied result meets
  | error error => exact meets

/-- What is known of the result may be added to its contract. -/
theorem and_performed (meets : Meets errors computation post) :
    Meets errors computation fun result => computation = .ok result ∧ post result := by
  cases computation with
  | ok result => exact ⟨rfl, meets⟩
  | error error => exact meets

theorem bind {next : α → Except ε β} {last : β → Prop} (first : Meets errors computation post)
    (second : ∀ result, post result → Meets errors (next result) last) :
    Meets errors (computation >>= next) last := by
  cases computation with
  | ok result => exact second result first
  | error error => exact first

/-- A part whose result may be anything. -/
theorem andThen {next : α → Except ε β} {last : β → Prop}
    (first : Meets errors computation fun _ => True)
    (second : ∀ result, computation = .ok result → Meets errors (next result) last) :
    Meets errors (computation >>= next) last :=
  first.and_performed.bind fun result known => second result known.1

theorem map {f : α → β} {last : β → Prop} (meets : Meets errors computation post)
    (mapped : ∀ result, post result → last (f result)) :
    Meets errors (f <$> computation) last := by
  cases computation with
  | ok result => exact mapped result meets
  | error error => exact meets

/-- The rule of loops: every iteration keeps the invariant. -/
theorem foldlM {invariant : β → Prop} {f : β → α → Except ε β} {values : List α} {start : β}
    (initial : invariant start)
    (step : ∀ value ∈ values, ∀ state, invariant state → Meets errors (f state value) invariant) :
    Meets errors (values.foldlM f start) invariant := by
  induction values generalizing start with
  | nil => exact initial
  | cons value rest ih =>
      rw [List.forall_mem_cons] at step
      rw [List.foldlM_cons]
      exact Meets.bind (step.1 start initial) fun next holds => ih holds step.2

end Meets

end Contracts
