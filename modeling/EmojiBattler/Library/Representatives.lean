import Mathlib.Data.Finset.Card
import Mathlib.Data.Finset.Dedup
import Mathlib.Data.List.Nodup

/-! # One value of each class

A search over a list takes the first value of every class, until it has enough
of them.  How many it takes does not depend on the order of the list. -/

namespace Representatives

universe u v

variable {α : Type u} {κ : Type v} [DecidableEq κ]

/-- The values taken, where the classes of some were taken before.  The search
asks only after a value whether it has enough. -/
def firsts (classOf : α → κ) (enough : Nat) : List α → List κ → List α
  | [], _ => []
  | value :: rest, seen =>
      if classOf value ∈ seen then firsts classOf enough rest seen
      else if enough ≤ seen.length + 1 then [value]
      else value :: firsts classOf enough rest (seen ++ [classOf value])

variable {classOf : α → κ} {enough : Nat} {values : List α} {seen : List κ}

theorem firsts_sublist : (firsts classOf enough values seen).Sublist values := by
  induction values generalizing seen with
  | nil => exact .slnil
  | cons value rest ih =>
      unfold firsts
      split
      · exact ih.cons value
      · split
        · exact (List.nil_sublist rest).cons_cons value
        · exact ih.cons_cons value

/-- A search that asks for none takes the first value. -/
theorem firsts_zero_cons {value : α} : firsts classOf 0 (value :: values) [] = [value] := by
  simp [firsts]

/-- The classes are new and differ from each other. -/
theorem firsts_classes :
    (∀ value ∈ firsts classOf enough values seen, classOf value ∉ seen) ∧
      ((firsts classOf enough values seen).map classOf).Nodup := by
  induction values generalizing seen with
  | nil => exact ⟨fun _ member => (List.not_mem_nil member).elim, List.nodup_nil⟩
  | cons value rest ih =>
      unfold firsts
      split
      · exact ih
      · rename_i new
        split
        · refine ⟨fun other member => ?_, List.nodup_singleton _⟩
          rwa [List.mem_singleton.mp member]
        · obtain ⟨later, distinct⟩ := @ih (seen ++ [classOf value])
          constructor
          · intro other member
            rcases List.mem_cons.mp member with rfl | member
            · exact new
            · exact fun old => later other member (List.mem_append_left _ old)
          · rw [List.map_cons, List.nodup_cons]
            refine ⟨fun again => ?_, distinct⟩
            obtain ⟨other, member, same⟩ := List.mem_map.mp again
            exact later other member (by rw [same]; simp)

/-- There are as many values as asked for, at least one, if there are as many new
classes. -/
theorem length_firsts (room : seen.length < max 1 enough) :
    (firsts classOf enough values seen).length =
      min (max 1 enough - seen.length) ((values.map classOf).toFinset \ seen.toFinset).card := by
  induction values generalizing seen with
  | nil => simp [firsts]
  | cons value rest ih =>
      rw [List.map_cons, List.toFinset_cons]
      unfold firsts
      split
      · rename_i old
        rw [ih room, Finset.insert_sdiff_of_mem _ (List.mem_toFinset.mpr old)]
      · rename_i new
        have fresh : classOf value ∉ seen.toFinset := by rwa [List.mem_toFinset]
        rw [Finset.insert_sdiff_of_notMem _ fresh]
        split
        · rename_i last
          have some : 0 < (insert (classOf value)
              ((rest.map classOf).toFinset \ seen.toFinset)).card :=
            Finset.card_pos.mpr (Finset.insert_nonempty _ _)
          rw [List.length_singleton]
          omega
        · rename_i more
          have length : (seen ++ [classOf value]).length = seen.length + 1 := by simp
          have classes : insert (classOf value) ((rest.map classOf).toFinset \ seen.toFinset) =
              insert (classOf value)
                ((rest.map classOf).toFinset \ (seen ++ [classOf value]).toFinset) := by
            ext candidate
            by_cases own : candidate = classOf value <;> simp [own]
          have apart : classOf value ∉
              (rest.map classOf).toFinset \ (seen ++ [classOf value]).toFinset := by simp
          rw [List.length_cons, @ih (seen ++ [classOf value]) (by omega), classes,
            Finset.card_insert_of_notMem apart, length]
          omega

/-- From the start, the number of classes decides. -/
theorem length_firsts_nil :
    (firsts classOf enough values []).length =
      min (max 1 enough) (values.map classOf).toFinset.card := by
  have room : ([] : List κ).length < max 1 enough :=
    Nat.lt_of_lt_of_le Nat.zero_lt_one (Nat.le_max_left 1 enough)
  have length := @length_firsts _ _ _ classOf enough values [] room
  simpa using length

end Representatives
