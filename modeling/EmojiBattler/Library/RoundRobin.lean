import Mathlib.Data.List.Basic
import Mathlib.Data.List.InsertIdx

/-! # Serving a line from left to right

Everyone in a line is served in turn: the leftmost of those who were served
least often is next.  The line stays in order as long as every service goes to
whose turn it is and everyone who joins comes with the count of a neighbor. -/

namespace RoundRobin

/-- The line is in order: nobody was served less often than anyone right of it,
or more than once more often. -/
def Staircase (served : List Nat) : Prop :=
  served.Pairwise fun left right => right ≤ left ∧ left ≤ right + 1

instance (served : List Nat) : Decidable (Staircase served) :=
  inferInstanceAs (Decidable (served.Pairwise fun _ _ => _ ∧ _))

/-- Whose turn it is. -/
def IsNext (served : List Nat) (index : Nat) : Prop :=
  ∃ count ∈ served[index]?, (∀ other ∈ served.take index, count < other) ∧
    ∀ other ∈ served, count ≤ other

instance (served : List Nat) (index : Nat) : Decidable (IsNext served index) :=
  inferInstanceAs (Decidable (∃ count ∈ served[index]?, _ ∧ _))

/-- One who was served so often may join at the index. -/
def Fits (served : List Nat) (index count : Nat) : Prop :=
  (∀ other ∈ served.take index, count ≤ other ∧ other ≤ count + 1) ∧
    ∀ other ∈ served.drop index, other ≤ count ∧ count ≤ other + 1

instance (served : List Nat) (index count : Nat) : Decidable (Fits served index count) :=
  inferInstanceAs (Decidable (_ ∧ _))

variable {served : List Nat} {index count : Nat}

theorem staircase_of_constant (constant : ∀ other ∈ served, other = count) :
    Staircase served := by
  apply List.Pairwise.imp_of_mem (R := fun _ _ => True)
  · intro left right leftMember rightMember _
    have left := constant left leftMember
    have right := constant right rightMember
    omega
  · exact List.pairwise_of_forall fun _ _ => trivial

theorem Staircase.eraseIdx (stairs : Staircase served) (index : Nat) :
    Staircase (served.eraseIdx index) :=
  stairs.sublist (List.eraseIdx_sublist served index)

theorem split_at (found : served[index]? = some count) :
    served = served.take index ++ count :: served.drop (index + 1) := by
  obtain ⟨bound, rfl⟩ := List.getElem?_eq_some_iff.mp found
  rw [List.getElem_cons_drop, List.take_append_drop]

theorem insertIdx_split (count : Nat) (bound : index ≤ served.length) :
    served.insertIdx index count = served.take index ++ count :: served.drop index := by
  induction served generalizing index with
  | nil =>
      cases Nat.le_zero.mp bound
      rfl
  | cons head rest ih =>
      cases index with
      | zero => rfl
      | succ index =>
          rw [List.insertIdx_succ_cons, ih (Nat.le_of_succ_le_succ bound)]
          rfl

/-- The line around one who stands in it. -/
theorem Staircase.around (stairs : Staircase served) (found : served[index]? = some count) :
    (∀ other ∈ served.take index, count ≤ other ∧ other ≤ count + 1) ∧
      ∀ other ∈ served.drop (index + 1), other ≤ count ∧ count ≤ other + 1 := by
  unfold Staircase at stairs
  rw [split_at found, List.pairwise_append, List.pairwise_cons] at stairs
  obtain ⟨_, ⟨after, _⟩, before⟩ := stairs
  exact ⟨fun other member => before other member count List.mem_cons_self, after⟩

/-- A service keeps the line in order exactly if it goes to whose turn it is. -/
theorem Staircase.serve_iff (stairs : Staircase served) (found : served[index]? = some count) :
    Staircase (served.set index (count + 1)) ↔ IsNext served index := by
  obtain ⟨before, after⟩ := stairs.around found
  have bound := (List.getElem?_eq_some_iff.mp found).1
  have split := split_at found
  constructor
  · intro kept
    have set : (served.set index (count + 1))[index]? = some (count + 1) :=
      List.getElem?_set_self bound
    have around := kept.around set
    rw [List.take_set_of_le (Nat.le_refl index), List.drop_set_of_lt (Nat.lt_succ_self index)]
      at around
    refine ⟨count, found, fun other member => (around.1 other member).1, fun other member => ?_⟩
    rw [split] at member
    rcases List.mem_append.mp member with left | right
    · exact (before other left).1
    · rcases List.mem_cons.mp right with rfl | right
      · exact Nat.le_refl _
      · exact Nat.le_of_succ_le_succ (around.2 other right).2
  · rintro ⟨least, same, first, lowest⟩
    cases found.symm.trans same
    unfold Staircase at stairs ⊢
    rw [split, List.pairwise_append, List.pairwise_cons] at stairs
    obtain ⟨left, ⟨_, right⟩, across⟩ := stairs
    rw [List.set_eq_take_append_cons_drop, if_pos bound, List.pairwise_append,
      List.pairwise_cons]
    refine ⟨left, ⟨fun other member => ?_, right⟩, fun other member next later => ?_⟩
    · have low := lowest other (List.mem_of_mem_drop member)
      have near := after other member
      omega
    · rcases List.mem_cons.mp later with rfl | later
      · have more := first other member
        have near := before other member
        omega
      · exact across other member next (List.mem_cons_of_mem _ later)

/-- One more keeps the line in order exactly if it fits. -/
theorem staircase_insertIdx_iff (bound : index ≤ served.length) :
    Staircase (served.insertIdx index count) ↔ Staircase served ∧ Fits served index count := by
  have split : served = served.take index ++ served.drop index :=
    (List.take_append_drop index served).symm
  unfold Staircase Fits
  rw [insertIdx_split count bound, List.pairwise_append, List.pairwise_cons]
  constructor
  · rintro ⟨left, ⟨after, right⟩, across⟩
    refine ⟨?_, fun other member => across other member count List.mem_cons_self, after⟩
    rw [split, List.pairwise_append]
    exact ⟨left, right, fun other member next later =>
      across other member next (List.mem_cons_of_mem _ later)⟩
  · rintro ⟨stairs, before, after⟩
    rw [split, List.pairwise_append] at stairs
    obtain ⟨left, right, across⟩ := stairs
    refine ⟨left, ⟨after, right⟩, fun other member next later => ?_⟩
    rcases List.mem_cons.mp later with rfl | later
    · exact before other member
    · exact across other member next later

/-- One may join right behind another one with the same count. -/
theorem Staircase.fits_behind (stairs : Staircase served) (found : served[index]? = some count) :
    Fits served (index + 1) count := by
  obtain ⟨before, after⟩ := stairs.around found
  refine ⟨fun other member => ?_, after⟩
  rw [List.take_add_one, found] at member
  rcases List.mem_append.mp member with left | same
  · exact before other left
  · cases List.mem_singleton.mp same
    omega

/-- One may join at the end with the count of the last. -/
theorem Staircase.fits_last (stairs : Staircase served) (last : served.getLast? = some count) :
    Fits served served.length count := by
  have found : served[served.length - 1]? = some count := by
    rwa [List.getLast?_eq_getElem?] at last
  have bound := (List.getElem?_eq_some_iff.mp found).1
  have behind := stairs.fits_behind found
  rwa [show served.length - 1 + 1 = served.length by omega] at behind

/-! ## Scanning for whose turn it is -/

theorem isNext_singleton (count : Nat) : IsNext [count] 0 :=
  ⟨count, rfl, by simp, by simp⟩

theorem IsNext.snoc_less {least : Nat} (next : IsNext served index)
    (found : served[index]? = some least) (less : count < least) :
    IsNext (served ++ [count]) served.length := by
  obtain ⟨_, same, _, lowest⟩ := next
  cases found.symm.trans same
  refine ⟨count, List.getElem?_concat_length, fun other member => ?_, fun other member => ?_⟩
  · rw [List.take_left] at member
    exact Nat.lt_of_lt_of_le less (lowest other member)
  · rcases List.mem_append.mp member with old | new
    · exact Nat.le_of_lt (Nat.lt_of_lt_of_le less (lowest other old))
    · exact Nat.le_of_eq (List.mem_singleton.mp new).symm

theorem IsNext.snoc_not_less {least : Nat} (next : IsNext served index)
    (found : served[index]? = some least) (more : ¬ count < least) :
    IsNext (served ++ [count]) index := by
  obtain ⟨_, same, first, lowest⟩ := next
  cases found.symm.trans same
  have bound := (List.getElem?_eq_some_iff.mp found).1
  refine ⟨least, ?_, fun other member => ?_, fun other member => ?_⟩
  · rwa [List.getElem?_append_left bound]
  · rw [List.take_append_of_le_length (Nat.le_of_lt bound)] at member
    exact first other member
  · rcases List.mem_append.mp member with old | new
    · exact lowest other old
    · rw [List.mem_singleton.mp new]
      exact Nat.le_of_not_lt more

end RoundRobin
