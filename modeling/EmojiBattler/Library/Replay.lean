import EmojiBattler.Library.CallMachine

/-! # Replaying a journal

A program that writes down what it changes.  Someone who reads the entries in
order on the view they started from gets the view the program ended with. -/

namespace Replay

open CallMachine

universe u v w x y

variable {Entry : Type u} {View : Type v} {State : Type w}

/-- Reads the entries in order.  It fails at an entry that does not apply. -/
def replay (apply : View → Entry → Option View) (view : View) (entries : List Entry) :
    Option View :=
  entries.foldlM apply view

@[simp] theorem replay_nil (apply : View → Entry → Option View) (view : View) :
    replay apply view [] = some view := rfl

@[simp] theorem replay_singleton (apply : View → Entry → Option View) (view : View)
    (entry : Entry) : replay apply view [entry] = apply view entry := by
  simp only [replay, List.foldlM_cons, List.foldlM_nil]
  exact bind_pure _

theorem replay_append {apply : View → Entry → Option View} {start middle : View}
    {first second : List Entry} (left : replay apply start first = some middle) :
    replay apply start (first ++ second) = replay apply middle second := by
  simp only [replay, List.foldlM_append] at left ⊢
  rw [left]
  rfl

/-- What is appended to the journal of a state explains the change of its view. -/
def Explained (apply : View → Entry → Option View) (journal : State → List Entry)
    (view : State → View) (before after : State) : Prop :=
  ∃ entries, journal after = journal before ++ entries ∧
    replay apply (view before) entries = some (view after)

variable {apply : View → Entry → Option View} {journal : State → List Entry}
variable {view : State → View}

theorem Explained.silent {before after : State} (quiet : journal after = journal before)
    (same : view after = view before) : Explained apply journal view before after :=
  ⟨[], by rw [quiet, List.append_nil], by rw [same, replay_nil]⟩

theorem Explained.refl (state : State) : Explained apply journal view state state :=
  .silent rfl rfl

theorem Explained.entry {before after : State} {entry : Entry}
    (written : journal after = journal before ++ [entry])
    (applied : apply (view before) entry = some (view after)) :
    Explained apply journal view before after :=
  ⟨[entry], written, by rw [replay_singleton, applied]⟩

theorem Explained.trans {before middle after : State}
    (first : Explained apply journal view before middle)
    (second : Explained apply journal view middle after) :
    Explained apply journal view before after := by
  obtain ⟨left, written, replayed⟩ := first
  obtain ⟨right, continued, finished⟩ := second
  refine ⟨left ++ right, ?_, ?_⟩
  · rw [continued, written, List.append_assoc]
  · rw [replay_append replayed, finished]

/-- A run explains its change if every task does. -/
theorem Explained.reaches {Task : Type x} {Error : Type y} {machine : Machine Task State Error}
    (step : ∀ {task calls before after}, machine task before = .ok (calls, after) →
      Explained apply journal view before after)
    {start last : Config Task State} (reached : Reaches machine start last) :
    Explained apply journal view start.state last.state :=
  Reaches.state_invariant (P := fun state => Explained apply journal view start.state state)
    (fun holds performed => holds.trans (step performed)) reached (.refl _)

/-! ## Entries that fit

A reader may rely on more than that an entry applies. -/

/-- Every entry fits the view that it is read on. -/
inductive Follows (apply : View → Entry → Option View) (fits : View → Entry → Prop) :
    View → List Entry → View → Prop
  | nil (here : View) : Follows apply fits here [] here
  | cons {start next last : View} {entry : Entry} {rest : List Entry} (fit : fits start entry)
      (applied : apply start entry = some next) (followed : Follows apply fits next rest last) :
      Follows apply fits start (entry :: rest) last

variable {fits : View → Entry → Prop} {start middle last : View} {first second : List Entry}

theorem Follows.append (left : Follows apply fits start first middle)
    (right : Follows apply fits middle second last) :
    Follows apply fits start (first ++ second) last := by
  induction left with
  | nil => exact right
  | cons fit applied _ ih => exact .cons fit applied (ih right)

/-- Entries that fit every view. -/
theorem Follows.of_replay (replayed : replay apply start first = some last)
    (fit : ∀ entry ∈ first, ∀ here, fits here entry) : Follows apply fits start first last := by
  induction first generalizing start with
  | nil =>
      cases replayed
      exact .nil _
  | cons entry rest ih =>
      obtain ⟨own, others⟩ := List.forall_mem_cons.mp fit
      simp only [replay, List.foldlM_cons, Option.bind_eq_bind, Option.bind_eq_some_iff]
        at replayed ih
      obtain ⟨next, applied, replayed⟩ := replayed
      exact .cons (own start) applied (ih replayed others)

theorem Follows.single {entry : Entry} (fit : fits start entry)
    (applied : apply start entry = some last) : Follows apply fits start [entry] last :=
  .cons fit applied (.nil last)

/-- What is appended to the journal fits and explains the change of the view. -/
def Narrated (apply : View → Entry → Option View) (fits : View → Entry → Prop)
    (journal : State → List Entry) (view : State → View) (before after : State) : Prop :=
  ∃ entries, journal after = journal before ++ entries ∧
    Follows apply fits (view before) entries (view after)

theorem Narrated.silent {before after : State} (quiet : journal after = journal before)
    (same : view after = view before) : Narrated apply fits journal view before after :=
  ⟨[], by rw [quiet, List.append_nil], by rw [same]; exact .nil _⟩

theorem Narrated.entry {before after : State} {entry : Entry}
    (written : journal after = journal before ++ [entry]) (fit : fits (view before) entry)
    (applied : apply (view before) entry = some (view after)) :
    Narrated apply fits journal view before after :=
  ⟨[entry], written, .single fit applied⟩

theorem Narrated.of_explained {before after : State} {entries : List Entry}
    (explained : Explained apply journal view before after)
    (written : journal after = journal before ++ entries)
    (fit : ∀ entry ∈ entries, ∀ here, fits here entry) :
    Narrated apply fits journal view before after := by
  obtain ⟨others, same, replayed⟩ := explained
  obtain rfl := List.append_cancel_left (written.symm.trans same)
  exact ⟨_, written, .of_replay replayed fit⟩

theorem Narrated.trans {before between after : State}
    (left : Narrated apply fits journal view before between)
    (right : Narrated apply fits journal view between after) :
    Narrated apply fits journal view before after := by
  obtain ⟨first, written, followed⟩ := left
  obtain ⟨second, continued, further⟩ := right
  refine ⟨first ++ second, ?_, followed.append further⟩
  rw [continued, written, List.append_assoc]

/-! ## Entries in another order -/

/-- Updates go through in every order, and to the same end, if any two that go
through in one order do so in the other. -/
theorem foldlM_perm {Error : Type y} {update : View → Entry → Except Error View}
    (same : first.Perm second)
    (diamond : ∀ entry ∈ first, ∀ other ∈ first, ∀ here there,
      (update here entry >>= (update · other)) = .ok there →
        (update here other >>= (update · entry)) = .ok there)
    (performed : first.foldlM update start = .ok last) :
    second.foldlM update start = .ok last := by
  induction same generalizing start with
  | nil => exact performed
  | cons entry _ ih =>
      have rest := fun left inLeft right inRight =>
        diamond left (List.mem_cons_of_mem _ inLeft) right (List.mem_cons_of_mem _ inRight)
      rw [List.foldlM_cons] at performed ⊢
      cases updated : update start entry with
      | error reason => rw [updated] at performed; cases performed
      | ok next =>
          rw [updated] at performed
          exact ih rest performed
  | swap entry other rest =>
      have both := diamond other List.mem_cons_self entry
        (List.mem_cons_of_mem _ List.mem_cons_self) start
      simp only [List.foldlM_cons, ← bind_assoc] at performed ⊢
      cases updated : update start other >>= (update · entry) with
      | error reason => rw [updated] at performed; cases performed
      | ok next =>
          rw [updated] at performed
          rw [both next updated]
          exact performed
  | trans left _ ihLeft ihRight =>
      have reordered := ihLeft diamond performed
      refine ihRight (fun entry member other listed => ?_) reordered
      exact diamond entry (left.mem_iff.mpr member) other (left.mem_iff.mpr listed)

end Replay
