import Mathlib.Data.List.Perm.Subperm
import Mathlib.Data.List.Range

/-! # Random choices by position

A pseudo-random generator as its clients see it.  Sampling and shuffling
depend on the number of elements only, never on the elements, so every choice
is a choice of positions.  The laws are what the operations promise for every
generator state; which positions come out is left open.
-/

namespace Sampling

structure Sampler where
  Rng : Type
  seedFromU64 : Nat → Rng
  /-- A fair coin. -/
  genBool : Rng → Bool × Rng
  /-- A number below the bound. -/
  genRange : Rng → Nat → Nat × Rng
  /-- One position among `length` many. -/
  choose : Rng → (length : Nat) → Nat × Rng
  /-- Positions of a sample of at most `amount` elements. -/
  chooseMultiple : Rng → (length amount : Nat) → List Nat × Rng
  /-- The old position of every element after shuffling. -/
  shuffle : Rng → (length : Nat) → List Nat × Rng
  genRange_lt : ∀ rng bound, 0 < bound → (genRange rng bound).1 < bound
  choose_lt : ∀ rng length, 0 < length → (choose rng length).1 < length
  chooseMultiple_length : ∀ rng length amount,
    (chooseMultiple rng length amount).1.length = min amount length
  chooseMultiple_nodup : ∀ rng length amount, (chooseMultiple rng length amount).1.Nodup
  chooseMultiple_lt : ∀ rng length amount,
    ∀ position ∈ (chooseMultiple rng length amount).1, position < length
  shuffle_perm : ∀ rng length, (shuffle rng length).1.Perm (List.range length)

/-- The elements at the given positions. -/
def pick (positions : List Nat) (values : List α) : List α :=
  positions.filterMap fun position => values[position]?

theorem pick_cons_of_lt {position : Nat} {positions : List Nat} {values : List α}
    (bound : position < values.length) :
    pick (position :: positions) values = values[position] :: pick positions values := by
  simp [pick, List.getElem?_eq_getElem bound]

theorem mem_of_mem_pick {positions : List Nat} {values : List α} {value : α}
    (member : value ∈ pick positions values) : value ∈ values := by
  obtain ⟨position, _, found⟩ := List.mem_filterMap.mp member
  exact List.mem_of_getElem? found

theorem pick_length {positions : List Nat} {values : List α}
    (bound : ∀ position ∈ positions, position < values.length) :
    (pick positions values).length = positions.length := by
  induction positions with
  | nil => rfl
  | cons position rest ih =>
      rw [pick_cons_of_lt (bound position (by simp)), List.length_cons, List.length_cons,
        ih fun other member => bound other (by simp [member])]

theorem pick_map (positions : List Nat) (values : List α) (f : α → β) :
    pick positions (values.map f) = (pick positions values).map f := by
  simp only [pick, List.map_filterMap, List.getElem?_map]

theorem pick_range_take {values : List α} {count : Nat} (bound : count ≤ values.length) :
    pick (List.range count) values = values.take count := by
  induction count with
  | zero => rfl
  | succ count ih =>
      have last : pick [count] values = [values[count]] := by
        rw [pick_cons_of_lt (by omega)]
        rfl
      rw [List.range_succ, pick, List.filterMap_append]
      change pick (List.range count) values ++ pick [count] values = _
      rw [ih (by omega), last, List.take_succ_eq_append_getElem (by omega)]

theorem pick_range (values : List α) : pick (List.range values.length) values = values := by
  rw [pick_range_take (Nat.le_refl _), List.take_length]

theorem pick_perm {positions : List Nat} {values : List α}
    (permuted : positions.Perm (List.range values.length)) :
    (pick positions values).Perm values := by
  have picked := permuted.filterMap fun position => values[position]?
  exact picked.trans (.of_eq (pick_range values))

/-- A duplicate-free choice of positions picks a part of the list, every
element at most as often as it occurs there. -/
theorem pick_subperm {positions : List Nat} {values : List α} (nodup : positions.Nodup)
    (bound : ∀ position ∈ positions, position < values.length) :
    (pick positions values).Subperm values := by
  have inside : positions.Subperm (List.range values.length) :=
    List.subperm_of_subset nodup fun position member =>
      List.mem_range.mpr (bound position member)
  obtain ⟨chosen, permuted, sublist⟩ := inside
  refine ⟨pick chosen values, permuted.filterMap _, ?_⟩
  have picked := sublist.filterMap fun position => values[position]?
  rwa [← pick, ← pick, pick_range] at picked

namespace Sampler

variable (sampler : Sampler)

/-- `slice.choose(&mut rng)` -/
def chooseFrom (rng : sampler.Rng) (values : List α) : Option α × sampler.Rng :=
  if values.isEmpty then (none, rng)
  else
    let (position, rng) := sampler.choose rng values.length
    (values[position]?, rng)

/-- `iter.choose_multiple(&mut rng, amount)` -/
def chooseMultipleFrom (rng : sampler.Rng) (values : List α) (amount : Nat) :
    List α × sampler.Rng :=
  let (positions, rng) := sampler.chooseMultiple rng values.length amount
  (pick positions values, rng)

/-- `slice.shuffle(&mut rng)` -/
def shuffleAll (rng : sampler.Rng) (values : List α) : List α × sampler.Rng :=
  let (positions, rng) := sampler.shuffle rng values.length
  (pick positions values, rng)

variable {sampler}

theorem chooseFrom_mem {rng : sampler.Rng} {values : List α} {value : α}
    (chosen : (sampler.chooseFrom rng values).1 = some value) : value ∈ values := by
  unfold chooseFrom at chosen
  split at chosen
  · cases chosen
  · exact List.mem_of_getElem? chosen

theorem chooseFrom_isSome {rng : sampler.Rng} {values : List α} (nonempty : values ≠ []) :
    ∃ value, (sampler.chooseFrom rng values).1 = some value := by
  have bound := sampler.choose_lt rng values.length (List.length_pos_of_ne_nil nonempty)
  exact ⟨values[(sampler.choose rng values.length).1], by
    simp [chooseFrom, nonempty, List.getElem?_eq_getElem bound]⟩

theorem chooseMultipleFrom_length (rng : sampler.Rng) (values : List α) (amount : Nat) :
    (sampler.chooseMultipleFrom rng values amount).1.length = min amount values.length := by
  rw [← sampler.chooseMultiple_length rng values.length amount]
  exact pick_length (sampler.chooseMultiple_lt rng values.length amount)

theorem chooseMultipleFrom_subperm (rng : sampler.Rng) (values : List α) (amount : Nat) :
    (sampler.chooseMultipleFrom rng values amount).1.Subperm values :=
  pick_subperm (sampler.chooseMultiple_nodup rng values.length amount)
    (sampler.chooseMultiple_lt rng values.length amount)

theorem shuffleAll_perm (rng : sampler.Rng) (values : List α) :
    (sampler.shuffleAll rng values).1.Perm values :=
  pick_perm (sampler.shuffle_perm rng values.length)

end Sampler

/-- The generator that always takes the first elements in order.  It meets the
laws, and on choices with a single outcome it agrees with every generator. -/
def Sampler.first : Sampler where
  Rng := Unit
  seedFromU64 _ := ()
  genBool rng := (false, rng)
  genRange rng _ := (0, rng)
  choose rng _ := (0, rng)
  chooseMultiple rng length amount := (List.range (min amount length), rng)
  shuffle rng length := (List.range length, rng)
  genRange_lt _ _ positive := positive
  choose_lt _ _ positive := positive
  chooseMultiple_length _ _ _ := List.length_range
  chooseMultiple_nodup _ _ _ := List.nodup_range
  chooseMultiple_lt _ length amount position member := by
    have := List.mem_range.mp member
    omega
  shuffle_perm _ _ := .refl _

end Sampling
