import Mathlib.Data.List.Basic
import Mathlib.Data.List.Forall2
import Mathlib.Data.List.Perm.Basic

/-! # Indexes that are kept across edits

A program that remembers an element of a list by its index goes on using the
index after elements were inserted or removed.  Two notions say that this is
still right, for the list of the elements' identities: whoever stands at the
index is the remembered one, and the index finds the remembered one or
nothing.  For an insertion and a removal the exact conditions under which they
stay true are given. -/

namespace Positions

/-- Nobody but `owner` stands at `index`. -/
def Stands (ids : List ι) (index : Nat) (owner : ι) : Prop :=
  ∀ id, ids[index]? = some id → id = owner

theorem Stands.of_getElem? {ids : List ι} {index : Nat} {owner : ι}
    (found : ids[index]? = some owner) : Stands ids index owner := by
  intro id other
  rw [found] at other
  exact (Option.some.inj other).symm

/-! ## Insertions -/

/-- The index survives an insertion at `position`: the new element comes behind it,
or the list does not reach it, or its owner moves into it, or the new element
is the owner. -/
def KeptByInsertion (ids : List ι) (position : Nat) (new : ι) (index : Nat) (owner : ι) : Prop :=
  index < position ∨ ids.length < index ∨
    (position < index ∧ ids[index - 1]? = some owner) ∨ (position = index ∧ new = owner)

theorem stands_insertIdx_iff {ids : List ι} {position index : Nat} {new owner : ι}
    (bound : position ≤ ids.length) (before : Stands ids index owner) :
    Stands (ids.insertIdx position new) index owner ↔
      KeptByInsertion ids position new index owner := by
  unfold Stands KeptByInsertion
  rw [List.getElem?_insertIdx]
  rcases Nat.lt_trichotomy index position with left | same | right
  · rw [if_pos left]
    exact iff_of_true before (.inl left)
  · subst same
    have within : ¬ ids.length < index := by omega
    simp [bound, within]
  · have behind : ¬ index < position := by omega
    have other : index ≠ position := by omega
    rw [if_neg behind, if_neg other]
    rcases Nat.lt_or_ge ids.length index with past | within
    · simp [List.getElem?_eq_none (show ids.length ≤ index - 1 by omega), past]
    · have present : index - 1 < ids.length := by omega
      have reached : ¬ ids.length < index := by omega
      simp [List.getElem?_eq_getElem present, behind, reached, right, other.symm]

/-- The index survives a removal at `position`: it is left of it, or no
element moves into it, or the one that moves into it is the owner as well. -/
def KeptByRemoval (ids : List ι) (position index : Nat) (owner : ι) : Prop :=
  index < position ∨ ids.length ≤ index + 1 ∨ ids[index + 1]? = some owner

theorem stands_eraseIdx_iff {ids : List ι} {position index : Nat} {owner : ι}
    (before : Stands ids index owner) :
    Stands (ids.eraseIdx position) index owner ↔ KeptByRemoval ids position index owner := by
  unfold Stands KeptByRemoval
  rw [List.getElem?_eraseIdx]
  rcases Nat.lt_or_ge index position with left | right
  · rw [if_pos left]
    exact iff_of_true before (.inl left)
  · rw [if_neg (by omega)]
    rcases Nat.lt_or_ge (index + 1) ids.length with within | past
    · have behind : ¬ index < position := by omega
      have reached : ¬ ids.length ≤ index + 1 := by omega
      simp [List.getElem?_eq_getElem within, behind, reached]
    · simp [past]

/-- An element that is taken out of a list without duplicates is gone. -/
theorem not_mem_eraseIdx {ids : List ι} {index : Nat} {owner : ι} (distinct : ids.Nodup)
    (found : ids[index]? = some owner) : owner ∉ ids.eraseIdx index := by
  obtain ⟨bound, rfl⟩ := List.getElem?_eq_some_iff.mp found
  exact (List.nodup_cons.mp ((List.getElem_cons_eraseIdx_perm bound).nodup_iff.mpr distinct)).1

variable [DecidableEq ι]

theorem erase_insertIdx {ids : List ι} {new : ι} (fresh : new ∉ ids) (position : Nat) :
    (ids.insertIdx position new).erase new = ids := by
  induction ids generalizing position with
  | nil => cases position <;> simp
  | cons head rest ih =>
      obtain ⟨other, fresh⟩ := List.ne_and_not_mem_of_not_mem_cons fresh
      cases position with
      | zero => rw [List.insertIdx_zero, List.erase_cons_head]
      | succ position =>
          rw [List.insertIdx_succ_cons, List.erase_cons_tail (by simpa using other.symm),
            ih fresh]

/-- An insertion does not change the order of those that were there. -/
theorem sublist_of_insertIdx {ids order : List ι} {new : ι} {position : Nat} (fresh : new ∉ ids)
    (sub : order.Sublist (ids.insertIdx position new)) (present : ∀ id ∈ order, id ∈ ids) :
    order.Sublist ids := by
  have erased := sub.erase new
  rwa [erase_insertIdx fresh, List.erase_of_not_mem fun member => fresh (present new member)]
    at erased

/-! ## Searching -/

/-- An access at `index` finds exactly what a search for `owner` finds. -/
def Locates (ids : List ι) (index : Nat) (owner : ι) : Prop :=
  (ids.findIdx? fun id => id = owner) = if index < ids.length then some index else none

instance (ids : List ι) (index : Nat) (owner : ι) : Decidable (Locates ids index owner) :=
  inferInstanceAs (Decidable (_ = _))

theorem locates_iff {ids : List ι} {index : Nat} {owner : ι} :
    Locates ids index owner ↔
      (ids[index]? = some owner ∧ ∀ other < index, ids[other]? ≠ some owner) ∨
        (ids.length ≤ index ∧ owner ∉ ids) := by
  unfold Locates
  rcases Nat.lt_or_ge index ids.length with within | past
  · rw [if_pos within, List.findIdx?_eq_some_iff_getElem]
    have reached : ¬ ids.length ≤ index := by omega
    simp only [List.getElem?_eq_getElem within, Option.some.injEq, reached, false_and, or_false,
      decide_eq_true_eq]
    constructor
    · rintro ⟨_, found, first⟩
      refine ⟨found, fun other before again => first other before ?_⟩
      rw [List.getElem?_eq_getElem (by omega)] at again
      exact Option.some.inj again
    · rintro ⟨found, first⟩
      refine ⟨within, found, fun other before again => first other before ?_⟩
      rw [List.getElem?_eq_getElem (by omega), again]
  · rw [if_neg (by omega), List.findIdx?_eq_none_iff]
    simp only [List.getElem?_eq_none past, past, true_and, decide_eq_false_iff_not]
    constructor
    · intro absent
      exact .inr fun member => absent owner member rfl
    · rintro (⟨found, _⟩ | absent) id member same
      · cases found
      · exact absent (same ▸ member)

theorem Locates.getElem?_eq {ids : List ι} {index : Nat} {owner : ι}
    (located : Locates ids index owner) (within : index < ids.length) :
    ids[index]? = some owner := by
  rcases locates_iff.mp located with ⟨found, _⟩ | ⟨past, _⟩
  · exact found
  · exact absurd within (Nat.not_lt.mpr past)

theorem Locates.not_mem {ids : List ι} {index : Nat} {owner : ι}
    (located : Locates ids index owner) (past : ids.length ≤ index) : owner ∉ ids := by
  rcases locates_iff.mp located with ⟨found, _⟩ | ⟨_, absent⟩
  · exact absurd (List.getElem?_eq_some_iff.mp found).1 (Nat.not_lt.mpr past)
  · exact absent

/-- In a list without duplicates an element is located by its index. -/
theorem Locates.of_getElem? {ids : List ι} {index : Nat} {owner : ι} (distinct : ids.Nodup)
    (found : ids[index]? = some owner) : Locates ids index owner := by
  refine locates_iff.mpr (.inl ⟨found, fun other before again => ?_⟩)
  have bound := (List.getElem?_eq_some_iff.mp found).1
  have equal := (List.getElem?_inj bound distinct).mp (found.trans again.symm)
  omega

theorem Locates.insertIdx {ids : List ι} {position index : Nat} {new owner : ι}
    (before : Locates ids index owner) (bound : position ≤ ids.length)
    (kept : index < position ∨ ids.length < index) (fresh : new ≠ owner) :
    Locates (ids.insertIdx position new) index owner := by
  rcases locates_iff.mp before with ⟨found, first⟩ | ⟨past, absent⟩
  · have within := (List.getElem?_eq_some_iff.mp found).1
    have left : index < position := by omega
    refine locates_iff.mpr (.inl ⟨?_, fun other lower => ?_⟩)
    · rw [List.getElem?_insertIdx, if_pos left, found]
    · rw [List.getElem?_insertIdx, if_pos (by omega)]
      exact first other lower
  · refine locates_iff.mpr (.inr ⟨?_, ?_⟩)
    · rw [List.length_insertIdx_of_le_length bound]
      omega
    · rw [List.mem_insertIdx bound]
      rintro (same | member)
      · exact fresh same.symm
      · exact absent member

theorem Locates.eraseIdx {ids : List ι} {position index : Nat} {owner : ι}
    (before : Locates ids index owner)
    (kept : index < position ∨ ids.length ≤ index ∨
      (position = index ∧ ids.length = index + 1)) :
    Locates (ids.eraseIdx position) index owner := by
  have shorter := List.length_eraseIdx_le ids position
  rcases locates_iff.mp before with ⟨found, first⟩ | ⟨past, absent⟩
  · have within := (List.getElem?_eq_some_iff.mp found).1
    rcases kept with left | past | ⟨same, last⟩
    · refine locates_iff.mpr (.inl ⟨?_, fun other lower => ?_⟩)
      · rw [List.getElem?_eraseIdx, if_pos left, found]
      · rw [List.getElem?_eraseIdx, if_pos (by omega)]
        exact first other lower
    · omega
    · -- The owner was the last element, so nothing is left to be found.
      subst same
      refine locates_iff.mpr (.inr ⟨?_, fun member => ?_⟩)
      · rw [List.length_eraseIdx_of_lt within]
        omega
      · obtain ⟨other, present⟩ := List.mem_iff_getElem?.mp member
        rw [List.getElem?_eraseIdx] at present
        split at present
        · rename_i lower
          exact first other lower present
        · rw [List.getElem?_eq_none (by omega)] at present
          cases present
  · refine locates_iff.mpr (.inr ⟨by omega, fun member => ?_⟩)
    exact absent (List.mem_of_mem_eraseIdx member)

/-! ## The positions of a property -/

/-- There are as many positions as elements with the property. -/
theorem length_filter_zipIdx (holds : α → Bool) (values : List α) :
    ((values.zipIdx.filter fun (value, _) => holds value).map Prod.snd).length =
      (values.filter holds).length := by
  rw [List.length_map, ← List.length_map (f := Prod.fst)]
  congr 1
  have mapped : (values.zipIdx.filter (holds ∘ Prod.fst)).map Prod.fst =
      (values.zipIdx.map Prod.fst).filter holds := List.filter_map.symm
  rw [List.zipIdx_map_fst] at mapped
  exact mapped

/-- The positions that a property of elements and positions picks. -/
theorem filter_zipIdx_eq_range (holds : α → Nat → Bool) (values : List α) :
    (values.zipIdx.filter fun (value, index) => holds value index).map Prod.snd =
      (List.range values.length).filter fun index => values[index]?.any (holds · index) := by
  have positions : values.zipIdx.map Prod.snd = List.range values.length := by
    rw [List.zipIdx_map_snd, List.range_eq_range']
  have looked : values.zipIdx.filter (fun (value, index) => holds value index) =
      values.zipIdx.filter ((fun index => values[index]?.any (holds · index)) ∘ Prod.snd) := by
    apply List.filter_congr
    intro (value, index) indexed
    simp [List.mem_zipIdx_iff_getElem?.mp indexed]
  rw [looked, ← List.filter_map, positions]

theorem mem_filter_zipIdx {holds : α → Bool} {values : List α} {index : Nat} :
    index ∈ (values.zipIdx.filter fun (value, _) => holds value).map Prod.snd ↔
      ∃ value, values[index]? = some value ∧ holds value := by
  constructor
  · intro member
    obtain ⟨⟨value, position⟩, filtered, rfl⟩ := List.mem_map.mp member
    obtain ⟨indexed, met⟩ := List.mem_filter.mp filtered
    exact ⟨value, List.mem_zipIdx_iff_getElem?.mp indexed, met⟩
  · rintro ⟨value, found, met⟩
    exact List.mem_map.mpr ⟨(value, index), List.mem_filter.mpr
      ⟨List.mem_zipIdx_iff_getElem?.mpr found, met⟩, rfl⟩

/-- Below an index there are as many positions as elements with the property
stand before it. -/
theorem length_filter_lt_zipIdx (holds : α → Bool) (values : List α) (start count : Nat) :
    ((((values.zipIdx start).filter fun (value, _) => holds value).map Prod.snd).filter
      fun index => index < start + count).length = ((values.take count).filter holds).length := by
  induction values generalizing start count with
  | nil => simp
  | cons value rest ih =>
      cases count with
      | zero =>
          have beyond : ∀ index ∈ (((value :: rest).zipIdx start).filter fun (value, _) =>
              holds value).map Prod.snd, ¬ index < start + 0 := by
            intro index member
            obtain ⟨⟨other, position⟩, filtered, rfl⟩ := List.mem_map.mp member
            have bound := List.le_snd_of_mem_zipIdx (List.mem_filter.mp filtered).1
            exact Nat.not_lt.mpr bound
          rw [List.filter_eq_nil_iff.mpr (by simpa using beyond)]
          rfl
      | succ count =>
          have later := ih (start + 1) count
          rw [show start + 1 + count = start + (count + 1) by omega] at later
          rw [List.zipIdx_cons, List.take_succ_cons]
          cases held : holds value with
          | true => simp [held, later]
          | false => simp [held, later]

section Before

variable {holds : α → Bool} {values : List α} {count : Nat}

theorem length_filter_lt_le :
    (((values.zipIdx.filter fun (value, _) => holds value).map Prod.snd).filter
      fun index => index < count).length ≤ count := by
  have before := length_filter_lt_zipIdx holds values 0 count
  simp only [Nat.zero_add] at before
  rw [before]
  exact Nat.le_trans (List.length_filter_le _ _) (List.length_take_le _ _)

/-- What is left before an index of a list when the elements with the property
are taken out still fits what is left of the list. -/
theorem sub_length_filter_lt_le (bound : count ≤ values.length) :
    count - (((values.zipIdx.filter fun (value, _) => holds value).map Prod.snd).filter
      fun index => index < count).length ≤ (values.filter fun value => !holds value).length := by
  have before := length_filter_lt_zipIdx holds values 0 count
  simp only [Nat.zero_add] at before
  rw [before]
  have part : ((values.take count).filter fun value => !holds value).length ≤
      (values.filter fun value => !holds value).length :=
    ((List.take_sublist count values).filter _).length_le
  have whole := List.length_eq_length_filter_add (l := values.take count) holds
  rw [List.length_take_of_le bound] at whole
  omega

end Before

/-! ## Related lists -/

theorem forall₂_getElem? {R : α → β → Prop} {left : List α} {right : List β} {index : Nat}
    {value : α} (related : List.Forall₂ R left right) (found : left[index]? = some value) :
    ∃ image, right[index]? = some image ∧ R value image := by
  induction related generalizing index with
  | nil => cases found
  | cons here _ ih =>
      cases index with
      | zero =>
          cases found
          exact ⟨_, rfl, here⟩
      | succ index => exact ih found

theorem forall₂_set {R : α → β → Prop} {left : List α} {right : List β}
    (related : List.Forall₂ R left right) (index : Nat) {value : α} {image : β}
    (holds : R value image) : List.Forall₂ R (left.set index value) (right.set index image) := by
  induction related generalizing index with
  | nil => exact .nil
  | cons here rest ih =>
      cases index with
      | zero => exact .cons holds rest
      | succ index => exact .cons here (ih index)

end Positions
