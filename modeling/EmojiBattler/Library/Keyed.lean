import Mathlib.Data.List.Nodup

/-! # Lists of entries with a key -/

namespace Keyed

universe u v

variable {Key : Type u} {Entry : Type v} {keyOf : Entry → Key} {entries : List Entry}
variable {entry : Entry} {key : Key} {index : Nat}

/-- An entry written over one of the same key leaves the keys. -/
theorem map_set_of_key_eq (bound : index < entries.length)
    (same : keyOf entries[index] = keyOf entry) :
    (entries.set index entry).map keyOf = entries.map keyOf := by
  have inside : index < (entries.map keyOf).length := by rwa [List.length_map]
  have before : (entries.map keyOf)[index] = keyOf entry := by rw [List.getElem_map, same]
  rw [List.map_set, ← before, List.set_getElem_self]

/-- Entries with distinct keys of which two have one key are the same. -/
theorem index_eq_of_key_eq {position : Nat} (distinct : (entries.map keyOf).Nodup)
    (bound : index < entries.length) (inside : position < entries.length)
    (same : keyOf entries[index] = keyOf entries[position]) : index = position := by
  refine (List.getElem?_inj (by rwa [List.length_map]) distinct).mp ?_
  rw [List.getElem?_map, List.getElem?_map, List.getElem?_eq_getElem bound,
    List.getElem?_eq_getElem inside, Option.map_some, Option.map_some, same]

section Search

variable [DecidableEq Key]

/-- A change written back at an index changes the entry with its key. -/
theorem set_eq_map {change : Entry → Entry} (distinct : (entries.map keyOf).Nodup)
    (found : entries[index]? = some entry) :
    entries.set index (change entry) =
      entries.map fun other => if keyOf other = keyOf entry then change other else other := by
  obtain ⟨bound, here⟩ := List.getElem?_eq_some_iff.mp found
  refine List.ext_getElem (by rw [List.length_set, List.length_map]) fun position inside _ => ?_
  rw [List.length_set] at inside
  rw [List.getElem_set, List.getElem_map]
  split
  · rename_i same
    subst same
    rw [here, if_pos rfl]
  · rename_i apart
    rw [if_neg fun same => apart
      (index_eq_of_key_eq distinct bound inside (by rw [here, same]))]

/-- Where the keys are distinct, the search for the key of an entry finds it. -/
theorem find?_of_mem (distinct : (entries.map keyOf).Nodup) (member : entry ∈ entries) :
    entries.find? (fun other => keyOf other = keyOf entry) = some entry := by
  cases found : entries.find? fun other => keyOf other = keyOf entry with
  | none => exact absurd (decide_eq_true rfl) (List.find?_eq_none.mp found entry member)
  | some other =>
      have own := List.find?_some found
      rw [List.inj_on_of_nodup_map distinct (List.mem_of_find?_eq_some found) member
        (of_decide_eq_true own)]

theorem key_of_findIdx?_eq_some
    (found : entries.findIdx? (fun entry => keyOf entry = key) = some index) :
    ∃ bound : index < entries.length, keyOf entries[index] = key := by
  obtain ⟨bound, own, _⟩ := List.findIdx?_eq_some_iff_getElem.mp found
  exact ⟨bound, of_decide_eq_true own⟩

theorem key_ne_of_findIdx?_eq_none
    (missing : entries.findIdx? (fun entry => keyOf entry = key) = none) :
    ∀ entry ∈ entries, keyOf entry ≠ key := fun entry listed own =>
  of_decide_eq_false (List.findIdx?_eq_none_iff.mp missing entry listed) own

theorem notMem_of_findIdx?_eq_none
    (missing : entries.findIdx? (fun entry => keyOf entry = key) = none) :
    key ∉ entries.map keyOf := by
  intro member
  obtain ⟨entry, listed, own⟩ := List.mem_map.mp member
  exact key_ne_of_findIdx?_eq_none missing entry listed own

theorem findIdx?_eq_none_iff :
    entries.findIdx? (fun entry => keyOf entry = key) = none ↔ key ∉ entries.map keyOf := by
  constructor
  · exact notMem_of_findIdx?_eq_none
  · intro absent
    refine List.findIdx?_eq_none_iff.mpr fun entry listed => decide_eq_false fun own => ?_
    exact absent (List.mem_map.mpr ⟨entry, listed, own⟩)

/-- Where the keys are distinct, the search for a key finds the one index at which
it stands. -/
theorem findIdx?_eq_some_iff (distinct : (entries.map keyOf).Nodup) :
    entries.findIdx? (fun entry => keyOf entry = key) = some index ↔
      (entries.map keyOf)[index]? = some key := by
  constructor
  · intro found
    obtain ⟨bound, own⟩ := key_of_findIdx?_eq_some found
    rw [List.getElem?_map, List.getElem?_eq_getElem bound, Option.map_some, own]
  · intro stands
    cases search : entries.findIdx? fun entry => keyOf entry = key with
    | none => exact absurd (List.mem_of_getElem? stands) (findIdx?_eq_none_iff.mp search)
    | some position =>
        obtain ⟨bound, own⟩ := key_of_findIdx?_eq_some search
        obtain ⟨inside, here⟩ := List.getElem?_eq_some_iff.mp stands
        rw [List.length_map] at inside
        rw [List.getElem_map] at here
        rw [index_eq_of_key_eq distinct bound inside (own.trans here.symm)]

/-- What holds between the entries of each key, one after another, holds between
all entries with the same key. -/
theorem pairwise_of_filter {R : Entry → Entry → Prop}
    (each : ∀ key, (entries.filter fun entry => keyOf entry = key).Pairwise R) :
    entries.Pairwise fun earlier entry => keyOf earlier = keyOf entry → R earlier entry := by
  induction entries with
  | nil => exact .nil
  | cons first rest ih =>
      rw [List.pairwise_cons]
      constructor
      · intro entry member same
        have own := each (keyOf first)
        rw [List.filter_cons_of_pos (by simp), List.pairwise_cons] at own
        exact own.1 entry (List.mem_filter.mpr ⟨member, decide_eq_true same.symm⟩)
      · exact ih fun key => (each key).sublist ((List.sublist_cons_self first rest).filter _)

end Search

end Keyed
