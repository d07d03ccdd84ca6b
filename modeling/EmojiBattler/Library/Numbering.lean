import Mathlib.Data.List.GetD
import Mathlib.Data.List.Nodup
import Mathlib.Data.Nat.Basic
import Mathlib.Data.Nat.ModEq

/-! # Numbers from a counter that wraps

A counter returns `count` numbers before it repeats one.  What was numbered
since it stood at `first` is told apart by its number until then. -/

namespace Numbering

/-- The counter returned the number since it stood at `first`. -/
def Issued (count first calls number : Nat) : Prop :=
  ∃ call, first ≤ call ∧ call < calls ∧ call % count = number

variable {count first calls later number : Nat}

theorem Issued.mono (issued : Issued count first calls number) (le : calls ≤ later) :
    Issued count first later number := by
  obtain ⟨call, lower, upper, same⟩ := issued
  exact ⟨call, lower, Nat.lt_of_lt_of_le upper le, same⟩

theorem Issued.next (start : first ≤ calls) : Issued count first (calls + 1) (calls % count) :=
  ⟨calls, start, Nat.lt_succ_self _, rfl⟩

/-- Within `count` calls the counter returns different numbers. -/
theorem call_inj {left right : Nat} (leftLower : first ≤ left) (leftUpper : left < first + count)
    (rightLower : first ≤ right) (rightUpper : right < first + count)
    (same : left % count = right % count) : left = right := by
  have divided := Nat.div_add_mod left count
  have dividedRight := Nat.div_add_mod right count
  have quotients : left / count = right / count := by
    by_contra different
    have bound : ∀ {a b : Nat}, a < b → count * a + count ≤ count * b := fun lt => by
      rw [← Nat.mul_succ]
      exact Nat.mul_le_mul_left count lt
    rcases Nat.lt_or_gt_of_ne different with lt | gt
    · have := bound lt
      omega
    · have := bound gt
      omega
  rw [quotients] at divided
  omega

/-- The next number is new. -/
theorem Issued.ne_next (issued : Issued count first calls number) (room : calls < first + count) :
    calls % count ≠ number := by
  obtain ⟨call, lower, upper, rfl⟩ := issued
  intro same
  have equal := call_inj (Nat.le_trans lower (Nat.le_of_lt upper)) room lower (by omega) same
  omega

/-! ## Other numbers -/

/-- Takes the numbers of one list to those of another, position by position,
and all others above `count`. -/
def renumber (count : Nat) (sources targets : List Nat) (number : Nat) : Nat :=
  targets.getD (sources.idxOf number) (number + count)

variable {sources targets : List Nat}

theorem renumber_getElem (count : Nat) (nodup : sources.Nodup) {index : Nat}
    (source : index < sources.length) (target : index < targets.length) :
    renumber count sources targets sources[index] = targets[index] := by
  rw [renumber, nodup.idxOf_getElem index source, List.getD_eq_getElem _ _ target]

/-- Below `count` are the images of the listed numbers. -/
theorem renumber_lt_iff (same : sources.length = targets.length)
    (bound : ∀ target ∈ targets, target < count) :
    renumber count sources targets number < count ↔ number ∈ sources := by
  unfold renumber
  rw [← List.idxOf_lt_length_iff, same]
  by_cases inside : sources.idxOf number < targets.length
  · rw [List.getD_eq_getElem _ _ inside]
    exact iff_of_true (bound _ (List.getElem_mem inside)) inside
  · rw [List.getD_eq_default _ _ (Nat.le_of_not_lt inside)]
    exact iff_of_false (by omega) inside

theorem renumber_injective (same : sources.length = targets.length) (nodup : targets.Nodup)
    (bound : ∀ target ∈ targets, target < count) :
    Function.Injective (renumber count sources targets) := by
  intro left right equal
  have below : renumber count sources targets left < count ↔ left ∈ sources :=
    renumber_lt_iff same bound
  rw [equal, renumber_lt_iff same bound] at below
  unfold renumber at equal
  by_cases listed : left ∈ sources
  · have leftBound := List.idxOf_lt_length_iff.mpr listed
    have rightBound := List.idxOf_lt_length_iff.mpr (below.mpr listed)
    rw [List.getD_eq_getElem _ _ (same ▸ leftBound),
      List.getD_eq_getElem _ _ (same ▸ rightBound)] at equal
    exact (List.idxOf_inj listed).mp (nodup.getElem_inj_iff.mp equal)
  · have unlisted := mt below.mp listed
    rw [List.idxOf_eq_length listed, List.idxOf_eq_length unlisted,
      List.getD_eq_default _ _ (Nat.le_of_eq same.symm),
      List.getD_eq_default _ _ (Nat.le_of_eq same.symm)] at equal
    omega

/-! ## The same counter from elsewhere -/

/-- Takes each number that the counter returns after `first` calls or later to
the one that it returns as many calls after `second`. -/
def shifted (count first second number : Nat) : Nat :=
  if number < count then (number + (second + first * (count - 1))) % count else number

theorem shifted_mod (positive : 0 < count) (first second later : Nat) :
    shifted count first second ((first + later) % count) = (second + later) % count := by
  have whole : first + later + (second + first * (count - 1)) =
      second + later + first * count := by
    obtain ⟨pred, rfl⟩ := Nat.exists_eq_succ_of_ne_zero (Nat.ne_of_gt positive)
    rw [Nat.succ_sub_one, Nat.mul_succ]
    omega
  rw [shifted, if_pos (Nat.mod_lt _ positive), Nat.mod_add_mod, whole, Nat.add_mul_mod_self_right]

theorem shifted_lt_iff (first second : Nat) :
    shifted count first second number < count ↔ number < count := by
  unfold shifted
  split
  · rename_i below
    exact iff_of_true (Nat.mod_lt _ (by omega)) below
  · rfl

theorem shifted_injective (count first second : Nat) :
    Function.Injective (shifted count first second) := by
  intro left right same
  have below : shifted count first second left < count ↔ left < count := shifted_lt_iff first second
  rw [same, shifted_lt_iff] at below
  unfold shifted at same
  by_cases bound : left < count
  · have bound' := below.mpr bound
    rw [if_pos bound, if_pos bound'] at same
    have equal : left ≡ right [MOD count] := Nat.ModEq.add_right_cancel' _ same
    rwa [Nat.ModEq, Nat.mod_eq_of_lt bound, Nat.mod_eq_of_lt bound'] at equal
  · rwa [if_neg bound, if_neg (mt below.mp bound)] at same

end Numbering
