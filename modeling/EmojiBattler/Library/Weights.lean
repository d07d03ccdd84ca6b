import Mathlib.Algebra.Ring.Nat
import Mathlib.Algebra.BigOperators.Group.List.Basic
import Mathlib.Algebra.Order.BigOperators.Group.List
import Mathlib.Data.List.Forall2

/-! # Weights of lists under edits

The weight of a list is the sum of the weights of its elements.  An edit at an
index changes it by the weights of the elements that come and go. -/

namespace Weights

variable {α : Type*} (weight : α → Nat)

/-- The sum of the weights of the elements. -/
def weigh (values : List α) : Nat := (values.map weight).sum

@[simp] theorem weigh_nil : weigh weight [] = 0 := rfl

@[simp] theorem weigh_cons (value : α) (values : List α) :
    weigh weight (value :: values) = weight value + weigh weight values := by
  rw [weigh, List.map_cons, List.sum_cons, weigh]

theorem weigh_perm {left right : List α} (same : left.Perm right) :
    weigh weight left = weigh weight right :=
  (same.map _).sum_nat

variable {values : List α} {position : Nat} {value : α}

theorem weigh_insertIdx (value : α) (bound : position ≤ values.length) :
    weigh weight (values.insertIdx position value) = weight value + weigh weight values := by
  rw [weigh_perm weight (List.perm_insertIdx value values bound), weigh_cons]

theorem weigh_eraseIdx (found : values[position]? = some value) :
    weigh weight values = weight value + weigh weight (values.eraseIdx position) := by
  obtain ⟨bound, rfl⟩ := List.getElem?_eq_some_iff.mp found
  rw [← weigh_perm weight (List.getElem_cons_eraseIdx_perm bound), weigh_cons]

theorem weigh_set (found : values[position]? = some value) (changed : α) :
    weigh weight (values.set position changed) + weight value =
      weigh weight values + weight changed := by
  have bound := (List.getElem?_eq_some_iff.mp found).1
  have changedValues := weigh_perm weight (List.set_perm_cons_eraseIdx bound changed)
  rw [weigh_cons] at changedValues
  have values := weigh_eraseIdx weight found
  omega

theorem weight_le_weigh (member : value ∈ values) : weight value ≤ weigh weight values := by
  obtain ⟨position, found⟩ := List.mem_iff_getElem?.mp member
  have split := weigh_eraseIdx weight found
  omega

end Weights
