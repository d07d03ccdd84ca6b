import Mathlib.Logic.Function.Basic

/-! # Two partial maps that are inverse to each other -/

namespace Pairing

open Function (update)

variable {α β : Type*}

/-- Each map finds exactly what the other one finds it by. -/
def Paired (forward : α → Option β) (backward : β → Option α) : Prop :=
  ∀ a b, forward a = some b ↔ backward b = some a

theorem paired_none : Paired (fun _ : α => (none : Option β)) fun _ => none :=
  fun _ _ => ⟨nofun, nofun⟩

/-- Nothing else is stored under the key. -/
def Free (map : α → Option β) (a : α) (b : β) : Prop := ∀ other, map a = some other → other = b

variable [DecidableEq α] [DecidableEq β] {forward : α → Option β} {backward : β → Option α}
variable {a : α} {b : β}

theorem Paired.update (paired : Paired forward backward) (freeForward : Free forward a b)
    (freeBackward : Free backward b a) :
    Paired (update forward a (some b)) (update backward b (some a)) := by
  intro key value
  by_cases sameKey : key = a
  · subst sameKey
    by_cases sameValue : value = b
    · subst sameValue
      rw [Function.update_self, Function.update_self]
      exact iff_of_true rfl rfl
    · rw [Function.update_self, Function.update_of_ne sameValue, ← paired]
      constructor
      · intro found
        exact absurd (Option.some.inj found).symm sameValue
      · intro found
        exact absurd (freeForward value found) sameValue
  · rw [Function.update_of_ne sameKey]
    by_cases sameValue : value = b
    · subst sameValue
      rw [Function.update_self, paired]
      constructor
      · intro found
        exact absurd (freeBackward key found) sameKey
      · intro found
        exact absurd (Option.some.inj found).symm sameKey
    · rw [Function.update_of_ne sameValue, paired]

/-- An update under both keys keeps the maps inverse exactly when neither key
was taken by something else. -/
theorem paired_update_iff (paired : Paired forward backward) :
    Paired (update forward a (some b)) (update backward b (some a)) ↔
      Free forward a b ∧ Free backward b a := by
  constructor
  · intro updated
    constructor
    · intro other found
      by_contra different
      have stays := (updated a other).mpr (by
        rw [Function.update_of_ne different]
        exact (paired a other).mp found)
      rw [Function.update_self] at stays
      exact different (Option.some.inj stays).symm
    · intro other found
      by_contra different
      have stays := (updated other b).mp (by
        rw [Function.update_of_ne different]
        exact (paired other b).mpr found)
      rw [Function.update_self] at stays
      exact different (Option.some.inj stays).symm
  · rintro ⟨freeForward, freeBackward⟩
    exact paired.update freeForward freeBackward

end Pairing
