import Mathlib.Data.List.Forall2
import Mathlib.Data.List.Nodup

/-! # Grouping by a key

The groups are a map in the order in which its keys were first met, and every
group keeps the order of its elements.  A choice takes one element of each
group, so that its keys are those of the groups. -/

namespace Grouping

universe u v w

variable {Key : Type u} {Value : Type v}

/-- Groups whose elements have the key of their group, and none is empty. -/
def Grouped (getKey : Value → Key) (groups : List (Key × List Value)) : Prop :=
  ∀ group ∈ groups, group.2 ≠ [] ∧ ∀ value ∈ group.2, getKey value = group.1

variable {getKey : Value → Key} {array : List Value} {groups : List (Key × List Value)}
variable {key : Key} {value : Value}

/-! ## Choices -/

/-- One element of each group, in their order. -/
def Picks (groups : List (Key × List Value)) (picked : List Value) : Prop :=
  List.Forall₂ (fun group value => value ∈ group.2) groups picked

variable {picked : List Value}

/-- The elements of a choice have the keys of the groups. -/
theorem Grouped.keys_picked (grouped : Grouped getKey groups) (picks : Picks groups picked) :
    picked.map getKey = groups.map Prod.fst := by
  induction picks with
  | nil => rfl
  | cons member _ ih =>
      obtain ⟨first, others⟩ := List.forall_mem_cons.mp grouped
      rw [List.map_cons, List.map_cons, first.2 _ member, ih others]

theorem Picks.mem (picks : Picks groups picked) (member : value ∈ picked) :
    ∃ group ∈ groups, value ∈ group.2 := by
  induction picks with
  | nil => cases member
  | cons first _ ih =>
      rcases List.mem_cons.mp member with rfl | later
      · exact ⟨_, List.mem_cons_self, first⟩
      · obtain ⟨group, listed, inside⟩ := ih later
        exact ⟨group, List.mem_cons_of_mem _ listed, inside⟩

/-- Another element of a group in the place of the old one. -/
theorem Picks.set {group : Key × List Value} {index : Nat} (picks : Picks groups picked)
    (found : groups[index]? = some group) (member : value ∈ group.2) :
    Picks groups (picked.set index value) := by
  induction picks generalizing index with
  | nil => cases found
  | cons first rest ih =>
      cases index with
      | zero =>
          cases found
          exact .cons member rest
      | succ index => exact .cons first (ih found)

/-- Elements that have each key once are a choice, up to their order. -/
theorem Grouped.exists_picks {values : List Value} (grouped : Grouped getKey groups)
    (distinct : (groups.map Prod.fst).Nodup)
    (inside : ∀ value ∈ values, ∃ group ∈ groups, value ∈ group.2)
    (keys : (values.map getKey).Perm (groups.map Prod.fst)) :
    ∃ picked, Picks groups picked ∧ values.Perm picked := by
  induction groups generalizing values with
  | nil =>
      obtain rfl := List.map_eq_nil_iff.mp keys.eq_nil
      exact ⟨[], .nil, .nil⟩
  | cons group rest ih =>
      obtain ⟨fresh, others⟩ := List.nodup_cons.mp distinct
      obtain ⟨first, tail⟩ := List.forall_mem_cons.mp grouped
      obtain ⟨value, member, key⟩ := List.mem_map.mp (keys.mem_iff.mpr List.mem_cons_self)
      obtain ⟨left, right, rfl⟩ := List.append_of_mem member
      have front : (left ++ value :: right).Perm (value :: (left ++ right)) := List.perm_middle
      have restKeys : ((left ++ right).map getKey).Perm (rest.map Prod.fst) := by
        have moved := (front.map getKey).symm.trans keys
        rw [List.map_cons, List.map_cons, key] at moved
        exact moved.cons_inv
      have inRest : ∀ other ∈ left ++ right, ∃ group ∈ rest, other ∈ group.2 := by
        intro other listed
        obtain ⟨home, here, holds⟩ := inside other (front.mem_iff.mpr (List.mem_cons_of_mem _ listed))
        rcases List.mem_cons.mp here with rfl | later
        · have has := restKeys.mem_iff.mp (List.mem_map_of_mem listed)
          rw [first.2 other holds] at has
          exact absurd has fresh
        · exact ⟨home, later, holds⟩
      obtain ⟨picked, picks, same⟩ := ih tail others inRest restKeys
      have inFirst : value ∈ group.2 := by
        obtain ⟨home, here, holds⟩ := inside value member
        rcases List.mem_cons.mp here with rfl | later
        · exact holds
        · rw [(tail home later).2 value holds] at key
          exact absurd (key ▸ List.mem_map_of_mem later) fresh
      exact ⟨value :: picked, .cons inFirst picks, front.trans (same.cons value)⟩

/-! ## Groups -/

section Groups

variable [DecidableEq Key]

/-- Appends a value to the group of its key, which is a new one if there is
none yet. -/
def push (key : Key) (value : Value) : List (Key × List Value) → List (Key × List Value)
  | [] => [(key, [value])]
  | (other, list) :: rest =>
      if other = key then (other, list ++ [value]) :: rest
      else (other, list) :: push key value rest

def groupBy (getKey : Value → Key) (array : List Value) : List (Key × List Value) :=
  array.foldl (fun groups value => push (getKey value) value groups) []

theorem mem_keys_push {other : Key} :
    other ∈ (push key value groups).map Prod.fst ↔ other = key ∨ other ∈ groups.map Prod.fst := by
  induction groups with
  | nil => simp [push]
  | cons group rest ih =>
      by_cases same : group.1 = key
      · simp [push, same]
      · simp only [push, same, if_false, List.map_cons, List.mem_cons, ih]
        exact or_left_comm

theorem nodup_push (distinct : (groups.map Prod.fst).Nodup) :
    ((push key value groups).map Prod.fst).Nodup := by
  induction groups with
  | nil => simp [push]
  | cons group rest ih =>
      obtain ⟨fresh, others⟩ := List.nodup_cons.mp distinct
      by_cases same : group.1 = key
      · simpa [push, same] using distinct
      · simp only [push, same, if_false, List.map_cons, List.nodup_cons, mem_keys_push]
        exact ⟨fun old => fresh (old.resolve_left id), ih others⟩

theorem Grouped.push (grouped : Grouped getKey groups) (value : Value) :
    Grouped getKey (push (getKey value) value groups) := by
  induction groups with
  | nil => simp [Grouping.push, Grouped]
  | cons group rest ih =>
      obtain ⟨first, others⟩ := List.forall_mem_cons.mp grouped
      by_cases same : group.1 = getKey value
      · simp only [Grouping.push, same, if_true]
        refine List.forall_mem_cons.mpr ⟨⟨by simp, fun member listed => ?_⟩, others⟩
        rcases List.mem_append.mp listed with old | new
        · exact (first.2 member old).trans same
        · rw [List.mem_singleton.mp new]
      · simp only [Grouping.push, same, if_false]
        exact List.forall_mem_cons.mpr ⟨first, ih others⟩

theorem mem_push {other : Value} :
    (∃ group ∈ push key value groups, other ∈ group.2) ↔
      other = value ∨ ∃ group ∈ groups, other ∈ group.2 := by
  induction groups with
  | nil => simp [push]
  | cons group rest ih =>
      by_cases same : group.1 = key
      · simp only [push, same, if_true, List.exists_mem_cons_iff, List.mem_append,
          List.mem_singleton]
        tauto
      · simp only [push, same, if_false, List.exists_mem_cons_iff, ih]
        exact or_left_comm

section Fold

variable {done : List (Key × List Value)}

theorem foldl_push_nodup (distinct : (done.map Prod.fst).Nodup) :
    ((array.foldl (fun groups value => push (getKey value) value groups) done).map
      Prod.fst).Nodup := by
  induction array generalizing done with
  | nil => exact distinct
  | cons value rest ih => exact ih (nodup_push distinct)

theorem foldl_push_grouped (grouped : Grouped getKey done) :
    Grouped getKey (array.foldl (fun groups value => push (getKey value) value groups) done) := by
  induction array generalizing done with
  | nil => exact grouped
  | cons value rest ih => exact ih (grouped.push value)

theorem mem_foldl_push :
    (∃ group ∈ array.foldl (fun groups value => push (getKey value) value groups) done,
      value ∈ group.2) ↔ value ∈ array ∨ ∃ group ∈ done, value ∈ group.2 := by
  induction array generalizing done with
  | nil => simp
  | cons first rest ih =>
      rw [List.foldl_cons, ih, mem_push, List.mem_cons]
      tauto

end Fold

theorem nodup_groupBy (getKey : Value → Key) (array : List Value) :
    ((groupBy getKey array).map Prod.fst).Nodup :=
  foldl_push_nodup List.nodup_nil

theorem grouped_groupBy (getKey : Value → Key) (array : List Value) :
    Grouped getKey (groupBy getKey array) :=
  foldl_push_grouped (List.forall_mem_nil _)

theorem mem_groupBy : (∃ group ∈ groupBy getKey array, value ∈ group.2) ↔ value ∈ array := by
  rw [groupBy, mem_foldl_push]
  simp

end Groups

end Grouping
