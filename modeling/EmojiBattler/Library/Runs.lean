import Mathlib.Data.List.Induction

/-! # Runs of events

A system reads a sequence of events, and every event takes it from a state to
another one.  Where one event keeps a property exactly if it meets a
condition, a whole sequence keeps it exactly if all its events do. -/

namespace Runs

universe u v

variable {State : Type u} {Event : Type v}

/-- The system can be in the last state after the events. -/
inductive Reaches (step : State → Event → State → Prop) (start : State) :
    List Event → State → Prop
  | start : Reaches step start [] start
  | step {done : List Event} {event : Event} {before after : State}
      (reached : Reaches step start done before) (performed : step before event after) :
      Reaches step start (done ++ [event]) after

variable {step : State → Event → State → Prop} {start before after last : State}
variable {done rest events : List Event} {event : Event}

theorem reaches_nil_iff : Reaches step start [] last ↔ start = last := by
  constructor
  · intro reached
    generalize whole : ([] : List Event) = events at reached
    cases reached with
    | start => rfl
    | step => exact absurd whole.symm (List.append_ne_nil_of_right_ne_nil _ (List.cons_ne_nil _ _))
  · rintro rfl
    exact .start

theorem reaches_snoc_iff : Reaches step start (done ++ [event]) after ↔
    ∃ before, Reaches step start done before ∧ step before event after := by
  constructor
  · intro reached
    generalize whole : done ++ [event] = events at reached
    cases reached with
    | start => exact absurd whole (List.append_ne_nil_of_right_ne_nil _ (List.cons_ne_nil _ _))
    | step reached performed =>
        obtain ⟨rfl, same⟩ := List.append_inj' whole rfl
        cases same
        exact ⟨_, reached, performed⟩
  · rintro ⟨before, reached, performed⟩
    exact .step reached performed

/-- What holds at the start and survives every event holds in every state. -/
theorem Reaches.invariant {P : List Event → State → Prop}
    (reached : Reaches step start events last) (initial : P [] start)
    (preserved : ∀ {done event before after}, Reaches step start done before → P done before →
      step before event after → P (done ++ [event]) after) : P events last := by
  induction reached with
  | start => exact initial
  | step reached performed ih => exact preserved reached ih performed

/-- Where an event keeps a property exactly if it meets a condition, all states
on the way have the property exactly if all events meet the condition. -/
theorem invariant_iff {P : List Event → State → Prop} {met : List Event → State → Event → Prop}
    (events : List Event) (initial : P [] start)
    (step_iff : ∀ {done event rest before after}, events = done ++ event :: rest →
      Reaches step start done before → P done before → step before event after →
      (P (done ++ [event]) after ↔ met done before event)) :
    (∀ done rest last, events = done ++ rest → Reaches step start done last → P done last) ↔
      ∀ done event rest before after, events = done ++ event :: rest →
        Reaches step start done before → step before event after → met done before event := by
  constructor
  · intro holds done event rest before after whole reached performed
    have here : P done before := holds done (event :: rest) before whole reached
    have next : P (done ++ [event]) after :=
      holds (done ++ [event]) rest after (by rw [whole, List.append_cons]) (.step reached performed)
    exact (step_iff whole reached here performed).mp next
  · intro meets done rest last whole reached
    induction reached generalizing rest with
    | start => exact initial
    | step reached performed ih =>
        rw [List.append_assoc] at whole
        exact (step_iff whole reached (ih _ whole) performed).mpr
          (meets _ _ _ _ _ whole reached performed)

/-! ## Functions -/

variable {f : State → Event → State}

theorem reaches_foldl_iff :
    Reaches (fun before event after => f before event = after) start events last ↔
      events.foldl f start = last := by
  induction events using List.reverseRecOn generalizing last with
  | nil => exact reaches_nil_iff
  | append_singleton done event ih => simp [reaches_snoc_iff, ih]

/-- `invariant_iff` for a total function. -/
theorem foldl_invariant_iff {P : List Event → State → Prop}
    {met : List Event → State → Event → Prop} (events : List Event) (initial : P [] start)
    (step_iff : ∀ {done event}, P done (done.foldl f start) →
      (P (done ++ [event]) (f (done.foldl f start) event) ↔
        met done (done.foldl f start) event)) :
    (∀ done rest, events = done ++ rest → P done (done.foldl f start)) ↔
      ∀ done event rest, events = done ++ event :: rest → met done (done.foldl f start) event := by
  have general := @invariant_iff _ _ (fun before event after => f before event = after) start
    P met events initial (fun _ reached holds performed => by
      obtain rfl := reaches_foldl_iff.mp reached
      obtain rfl := performed
      exact step_iff holds)
  simp only [reaches_foldl_iff] at general
  constructor
  · intro holds done event rest whole
    exact general.mp (fun done rest last whole same => same ▸ holds done rest whole) done event
      rest _ _ whole rfl rfl
  · intro meets done rest whole
    exact general.mpr (fun done event rest before after whole same _ => same ▸
      meets done event rest whole) done rest _ whole rfl

/-! ## Functions that can fail -/

variable {ε : Type} {g : State → Event → Except ε State}

theorem reaches_foldlM_iff :
    Reaches (fun before event after => g before event = .ok after) start events last ↔
      events.foldlM g start = .ok last := by
  induction events using List.reverseRecOn generalizing last with
  | nil =>
      rw [reaches_nil_iff]
      exact ⟨fun same => by rw [same]; rfl, fun same => Except.ok.inj same⟩
  | append_singleton done event ih =>
      rw [reaches_snoc_iff, List.foldlM_append]
      cases performed : done.foldlM g start with
      | error error =>
          refine iff_of_false ?_ (fun same => nomatch same)
          rintro ⟨middle, reached, _⟩
          rw [ih, performed] at reached
          cases reached
      | ok middle =>
          have only : ∀ other, Reaches (fun before event after => g before event = .ok after)
              start done other ↔ middle = other := by
            intro other
            rw [ih, performed, Except.ok.injEq]
          change _ ↔ ([event].foldlM g middle) = .ok last
          rw [List.foldlM_cons]
          constructor
          · rintro ⟨_, reached, stepped⟩
            cases (only _).mp reached
            rw [stepped]
            rfl
          · intro folded
            refine ⟨middle, (only middle).mpr rfl, ?_⟩
            cases stepped : g middle event with
            | error error =>
                rw [stepped] at folded
                cases folded
            | ok next =>
                rw [stepped] at folded
                exact folded

end Runs
