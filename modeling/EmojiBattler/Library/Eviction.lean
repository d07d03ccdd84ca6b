import Mathlib.Data.Finset.Card
import Mathlib.Data.List.Basic
import Mathlib.Order.Defs.LinearOrder

/-! # Bounded stores of keys

A store keeps a bounded number of keys.  A key that comes to a full store takes
the place of a victim. -/

namespace Eviction

universe u v w

variable {Key : Type u} [DecidableEq Key]

/-- The keys that a store keeps after a key came. -/
def accept (capacity : Nat) (victim key : Key) (kept : Finset Key) : Finset Key :=
  if key ∈ kept then kept
  else if kept.card < capacity then insert key kept
  else insert key (kept.erase victim)

section Accept

variable {capacity : Nat} {victim other key : Key} {kept : Finset Key}

theorem accept_of_mem (known : key ∈ kept) : accept capacity victim key kept = kept := by
  rw [accept, if_pos known]

theorem accept_of_lt (new : key ∉ kept) (room : kept.card < capacity) :
    accept capacity victim key kept = insert key kept := by
  rw [accept, if_neg new, if_pos room]

theorem accept_of_le (new : key ∉ kept) (full : capacity ≤ kept.card) :
    accept capacity victim key kept = insert key (kept.erase victim) := by
  rw [accept, if_neg new, if_neg (Nat.not_lt.mpr full)]

theorem insert_erase_eq_iff (held : victim ∈ kept) (held' : other ∈ kept) (new : key ∉ kept) :
    insert key (kept.erase victim) = insert key (kept.erase other) ↔ victim = other := by
  constructor
  · intro same
    by_contra different
    have stays : victim ∈ insert key (kept.erase other) :=
      Finset.mem_insert_of_mem (Finset.mem_erase.mpr ⟨different, held⟩)
    rw [← same, Finset.mem_insert] at stays
    rcases stays with own | stays
    · exact new (own ▸ held)
    · exact Finset.notMem_erase victim kept stays
  · rintro rfl
    rfl

/-- Two stores that keep the same keys go on to do so exactly if they have the
same victim when they need one. -/
theorem accept_eq_accept_iff
    (held : key ∉ kept → capacity ≤ kept.card → victim ∈ kept ∧ other ∈ kept) :
    accept capacity victim key kept = accept capacity other key kept ↔
      (key ∉ kept → capacity ≤ kept.card → victim = other) := by
  by_cases known : key ∈ kept
  · rw [accept_of_mem known, accept_of_mem known]
    exact iff_of_true rfl fun new => absurd known new
  · rcases Nat.lt_or_ge kept.card capacity with room | full
    · rw [accept_of_lt known room, accept_of_lt known room]
      exact iff_of_true rfl fun _ full => absurd room (Nat.not_lt.mpr full)
    · rw [accept_of_le known full, accept_of_le known full,
        insert_erase_eq_iff (held known full).1 (held known full).2 known]
      exact ⟨fun same _ _ => same, fun same => same known full⟩

end Accept

/-! ## Lists -/

section Lists

variable {capacity index : Nat} {victim key : Key} {keys : List Key}

/-- A list gives up its first key. -/
def acceptLast (capacity : Nat) (key : Key) (keys : List Key) : List Key :=
  if key ∈ keys then keys
  else if keys.length < capacity then keys ++ [key]
  else keys.eraseIdx 0 ++ [key]

theorem length_acceptLast_le (positive : 0 < capacity) (bounded : keys.length ≤ capacity) :
    (acceptLast capacity key keys).length ≤ capacity := by
  unfold acceptLast
  split
  · exact bounded
  · split
    · rw [List.length_append, List.length_singleton]
      omega
    · rw [List.eraseIdx_zero, List.length_append, List.length_tail, List.length_singleton]
      omega

theorem nodup_acceptLast (distinct : keys.Nodup) : (acceptLast capacity key keys).Nodup := by
  unfold acceptLast
  split
  · exact distinct
  · rename_i new
    split
    · rw [← List.concat_eq_append]
      exact distinct.concat new
    · rw [← List.concat_eq_append]
      have fewer := List.eraseIdx_sublist keys 0
      exact (distinct.sublist fewer).concat fun member => new (fewer.subset member)

theorem toFinset_acceptLast (distinct : keys.Nodup) :
    (acceptLast capacity key keys).toFinset =
      accept capacity (keys.headD key) key keys.toFinset := by
  unfold acceptLast
  have card : keys.toFinset.card = keys.length := List.toFinset_card_of_nodup distinct
  split
  · rename_i known
    rw [accept_of_mem (List.mem_toFinset.mpr known)]
  · rename_i new
    have new : key ∉ keys.toFinset := by rwa [List.mem_toFinset]
    split
    · rename_i room
      rw [accept_of_lt new (card ▸ room), List.toFinset_append]
      ext candidate
      simp
    · rename_i full
      rw [accept_of_le new (card ▸ Nat.not_lt.mp full)]
      cases keys with
      | nil => simp
      | cons first rest =>
          have apart : first ∉ rest := (List.nodup_cons.mp distinct).1
          ext candidate
          by_cases own : candidate = first
          · simp [own, apart]
          · simp [own]

/-- A key written over another one takes its place. -/
theorem toFinset_set (distinct : keys.Nodup) (found : keys[index]? = some victim)
    (new : key ∉ keys) :
    (keys.set index key).toFinset = insert key (keys.toFinset.erase victim) := by
  obtain ⟨bound, same⟩ := List.getElem?_eq_some_iff.mp found
  ext candidate
  simp only [List.mem_toFinset, Finset.mem_insert, Finset.mem_erase]
  constructor
  · intro member
    obtain ⟨position, inside, rfl⟩ := List.mem_iff_getElem.mp member
    rw [List.length_set] at inside
    rw [List.getElem_set]
    split
    · exact .inl rfl
    · rename_i different
      refine .inr ⟨fun again => different ?_, List.getElem_mem inside⟩
      exact (distinct.getElem_inj_iff.mp (same.trans again.symm))
  · rintro (rfl | ⟨different, member⟩)
    · exact List.mem_set bound candidate
    · obtain ⟨position, inside, rfl⟩ := List.mem_iff_getElem.mp member
      have apart : index ≠ position := by
        rintro rfl
        exact different same
      exact List.mem_iff_getElem.mpr ⟨position, by rwa [List.length_set],
        List.getElem_set_ne apart _⟩

end Lists

/-! ## The oldest key -/

section Oldest

variable {Event : Type v} {Stamp : Type w} {keyOf : Event → Key} {stampOf : Event → Stamp}
variable {events : List Event} {event : Event} {kept : Finset Key} {key first second : Key}

/-- The last event of a key. -/
def latest (keyOf : Event → Key) (events : List Event) (key : Key) : Option Event :=
  events.reverse.find? fun event => keyOf event = key

theorem latest_snoc_self : latest keyOf (events ++ [event]) (keyOf event) = some event := by
  simp [latest]

theorem latest_snoc_of_ne (different : keyOf event ≠ key) :
    latest keyOf (events ++ [event]) key = latest keyOf events key := by
  simp [latest, different]

theorem mem_of_latest (found : latest keyOf events key = some event) :
    event ∈ events ∧ keyOf event = key := by
  have member := List.mem_of_find?_eq_some found
  have own := List.find?_some found
  exact ⟨List.mem_reverse.mp member, of_decide_eq_true own⟩

variable [LinearOrder Stamp]

/-- No key of the store has an older last event. -/
structure Oldest (keyOf : Event → Key) (stampOf : Event → Stamp) (events : List Event)
    (kept : Finset Key) (key : Key) : Prop where
  held : key ∈ kept
  least : ∀ other ∈ kept, ∀ own last, latest keyOf events key = some own →
    latest keyOf events other = some last → stampOf own ≤ stampOf last

/-- Where every event is later than those before, only one key is the oldest. -/
theorem Oldest.unique (later : events.Pairwise fun earlier event => stampOf earlier < stampOf event)
    (came : ∀ key ∈ kept, ∃ event, latest keyOf events key = some event)
    (oldest : Oldest keyOf stampOf events kept first)
    (oldest' : Oldest keyOf stampOf events kept second) : first = second := by
  obtain ⟨own, found⟩ := came first oldest.held
  obtain ⟨last, found'⟩ := came second oldest'.held
  have same : stampOf own = stampOf last :=
    le_antisymm (oldest.least second oldest'.held own last found found')
      (oldest'.least first oldest.held last own found' found)
  have distinct : (events.map stampOf).Nodup :=
    List.pairwise_map.mpr (later.imp fun less => less.ne)
  have event : own = last := List.inj_on_of_nodup_map distinct (mem_of_latest found).1
    (mem_of_latest found').1 same
  rw [← (mem_of_latest found).2, ← (mem_of_latest found').2, event]

/-- A list that gives up its first key keeps the keys of a store that gives up
the oldest one exactly if its first key is the oldest when it needs a victim. -/
theorem acceptLast_eq_accept_iff {capacity : Nat} {keys : List Key} {victim : Key}
    (positive : 0 < capacity) (distinct : keys.Nodup) (bounded : keys.length ≤ capacity)
    (later : events.Pairwise fun earlier event => stampOf earlier < stampOf event)
    (came : ∀ key ∈ keys.toFinset, ∃ event, latest keyOf events key = some event)
    (oldest : key ∉ keys → keys.length = capacity →
      Oldest keyOf stampOf events keys.toFinset victim) :
    (acceptLast capacity key keys).toFinset = accept capacity victim key keys.toFinset ↔
      (key ∉ keys → keys.length = capacity → ∃ front, keys.head? = some front ∧
        Oldest keyOf stampOf events keys.toFinset front) := by
  have card : keys.toFinset.card = keys.length := List.toFinset_card_of_nodup distinct
  have headed : keys.length = capacity → ∃ front, keys.head? = some front ∧
      keys.headD key = front ∧ front ∈ keys.toFinset := by
    intro full
    match keys, full with
    | [], full => exact absurd full (Nat.ne_of_lt positive)
    | front :: rest, _ => exact ⟨front, rfl, rfl, by simp⟩
  rw [toFinset_acceptLast distinct, accept_eq_accept_iff]
  · rw [List.mem_toFinset, card]
    constructor
    · intro same new full
      obtain ⟨front, first, head, _⟩ := headed full
      have same : front = victim := head ▸ same new (Nat.le_of_eq full.symm)
      exact ⟨front, first, same ▸ oldest new full⟩
    · intro agrees new full
      have full : keys.length = capacity := Nat.le_antisymm bounded full
      obtain ⟨front, first, head, _⟩ := headed full
      obtain ⟨front', first', least⟩ := agrees new full
      cases first.symm.trans first'
      rw [head]
      exact least.unique later came (oldest new full)
  · intro new full
    rw [List.mem_toFinset] at new
    have full : keys.length = capacity := Nat.le_antisymm bounded (card ▸ full)
    obtain ⟨front, _, head, held⟩ := headed full
    exact ⟨head ▸ held, (oldest new full).held⟩

end Oldest

end Eviction
