import Mathlib.Data.List.Perm.Subperm
import EmojiBattler.Mtc.DataErrors
import EmojiBattler.Mtc.Setup
import EmojiBattler.Shop.Conservation

/-! # The pool of a deck

Three functions check a deck: the length, the allow-list and the grades of the
selection, the existence of the bases, and the grades that have a count.  The
pool numbers the copies of the selected and the fixed bases without a gap. -/

namespace EmojiBattler.Mtc

open EmojiBattler.Emo

/-- The grade of a known base. -/
def grade? (bases : Bases) (id : Nat) : Option Nat := (bases id).map Base.grade

/-- The base exists and has a grade from 1 to 6. -/
def BaseGraded (bases : Bases) (id : Nat) : Prop :=
  ∃ base, bases id = some base ∧ 1 ≤ base.grade ∧ base.grade ≤ 6

/-- How many copies of a base a deck brings into the pool. -/
def poolCount (bases : Bases) (id : Nat) : Nat :=
  match bases id with
  | some base => (getPoolEmoCountByGrade base.grade).toOption.getD 0
  | none => 0

def poolSize (bases : Bases) (ids : List Nat) : Nat := (ids.map (poolCount bases)).sum

/-- The bases of the pool, in its order. -/
def poolBaseIds (bases : Bases) (ids : List Nat) : List Nat :=
  ids.flatMap fun id => List.replicate (poolCount bases id) id

variable {bases : Bases}

theorem getPoolEmoCountByGrade_succeeds_iff {grade : Nat} :
    Succeeds (getPoolEmoCountByGrade grade) ↔ 1 ≤ grade ∧ grade ≤ 6 := by
  unfold getPoolEmoCountByGrade
  split
  case h_7 one two three four five six =>
    refine iff_of_false (not_succeeds_error _) fun ⟨lower, upper⟩ => ?_
    have grades : grade = 1 ∨ grade = 2 ∨ grade = 3 ∨ grade = 4 ∨ grade = 5 ∨ grade = 6 := by omega
    rcases grades with h | h | h | h | h | h
    · exact one h
    · exact two h
    · exact three h
    · exact four h
    · exact five h
    · exact six h
  all_goals exact iff_of_true (succeeds_ok _) (by decide)

theorem poolCount_eq {id num : Nat} {base : Base} (found : bases id = some base)
    (counted : getPoolEmoCountByGrade base.grade = .ok num) : poolCount bases id = num := by
  simp [poolCount, found, counted, Except.toOption]

/-- Every occurrence of a base in the deck brings all its copies. -/
theorem count_poolBaseIds (bases : Bases) (ids : List Nat) (baseId : Nat) :
    (poolBaseIds bases ids).count baseId = ids.count baseId * poolCount bases baseId := by
  induction ids with
  | nil => simp [poolBaseIds]
  | cons id rest ih =>
      rw [poolBaseIds, List.flatMap_cons, List.count_append, ← poolBaseIds, ih,
        List.count_cons, List.count_replicate, Nat.add_mul, Nat.add_comm]
      congr 1
      by_cases same : id = baseId
      · subst same
        simp
      · simp [same]

/-! ## The selection -/

theorem buildBuiltBaseIdsLoop_eq_ok_iff {builtBaseIds selected done usedGrades ids : List Nat}
    (keyed : Shop.KeyedBases bases) :
    buildBuiltBaseIdsLoop bases builtBaseIds selected done usedGrades = .ok ids ↔
      ids = done ++ selected ∧ (selected.map (grade? bases)).Nodup ∧
        ∀ id ∈ selected, id ∈ builtBaseIds ∧
          ∃ grade, grade? bases id = some grade ∧ grade ∉ usedGrades := by
  induction selected generalizing done usedGrades with
  | nil =>
      rw [buildBuiltBaseIdsLoop, Result.pure_eq_ok_iff, eq_comm]
      simp
  | cons id rest ih =>
      simp only [buildBuiltBaseIdsLoop, Result.bind_eq_ok_iff, Bases.find_eq_ok_iff,
        ensure_eq_ok_iff, ih, List.map_cons, List.nodup_cons, List.forall_mem_cons]
      constructor
      · rintro ⟨base, found, _, allowed, _, unused, rfl, distinct, others⟩
        obtain rfl := keyed id base found
        have grade : grade? bases base.id = some base.grade := by rw [grade?, found]; rfl
        refine ⟨by rw [List.append_assoc]; rfl, ⟨fun member => ?_, distinct⟩,
          ⟨allowed, base.grade, grade, unused⟩, fun other member => ?_⟩
        · obtain ⟨other, listed, same⟩ := List.mem_map.mp member
          obtain ⟨_, _, has, fresh⟩ := others other listed
          rw [same, grade] at has
          cases has
          exact fresh (List.mem_append_right _ (List.mem_singleton_self _))
        · obtain ⟨listed, other, has, fresh⟩ := others other member
          exact ⟨listed, other, has, fun used => fresh (List.mem_append_left _ used)⟩
      · rintro ⟨rfl, ⟨fresh, distinct⟩, ⟨allowed, grade, has, unused⟩, others⟩
        obtain ⟨base, found, rfl⟩ := Option.map_eq_some_iff.mp has
        have own : base.id = id := keyed id base found
        refine ⟨base, found, (), own ▸ allowed, (), unused, ?_, distinct, fun other member => ?_⟩
        · rw [own, List.append_assoc]
          rfl
        · obtain ⟨listed, otherGrade, otherHas, otherUnused⟩ := others other member
          refine ⟨listed, otherGrade, otherHas, fun used => ?_⟩
          rcases List.mem_append.mp used with before | here
          · exact otherUnused before
          · rw [List.mem_singleton.mp here, ← has] at otherHas
            exact fresh (List.mem_map.mpr ⟨other, member, otherHas⟩)

theorem buildBuiltBaseIds_eq_ok_iff {builtBaseIds selected ids : List Nat}
    (keyed : Shop.KeyedBases bases) :
    buildBuiltBaseIds selected bases builtBaseIds = .ok ids ↔
      ids = selected ∧ selected.length = 6 ∧ (selected.map (grade? bases)).Nodup ∧
        ∀ id ∈ selected, id ∈ builtBaseIds ∧ Resolves bases id := by
  simp only [buildBuiltBaseIds, Result.bind_eq_ok_iff, ensure_eq_ok_iff,
    buildBuiltBaseIdsLoop_eq_ok_iff keyed, List.nil_append, List.not_mem_nil, not_false_eq_true,
    and_true, Resolves, grade?, Option.map_eq_some_iff]
  constructor
  · rintro ⟨_, size, rfl, distinct, known⟩
    refine ⟨rfl, size, distinct, fun id member => ?_⟩
    obtain ⟨allowed, _, base, found, _⟩ := known id member
    exact ⟨allowed, base, found⟩
  · rintro ⟨rfl, size, distinct, known⟩
    refine ⟨(), size, rfl, distinct, fun id member => ?_⟩
    obtain ⟨allowed, base, found⟩ := known id member
    exact ⟨allowed, base.grade, base, found, rfl⟩

/-! ## The numbering -/

theorem buildPoolLoop_succeeds_iff {ids : List Nat} {mtcEmoId : Nat} {deck : List Emo}
    (counter : mtcEmoId ≤ u16Max) :
    Succeeds (buildPoolLoop bases ids mtcEmoId deck) ↔
      (∀ id ∈ ids, BaseGraded bases id) ∧ mtcEmoId + poolSize bases ids ≤ u16Max := by
  induction ids generalizing mtcEmoId deck with
  | nil => simpa [buildPoolLoop, poolSize] using counter
  | cons id rest ih =>
      simp only [buildPoolLoop, succeeds_bind_iff, Bases.find_eq_ok_iff, ensure_eq_ok_iff,
        List.forall_mem_cons]
      have size : poolSize bases (id :: rest) = poolCount bases id + poolSize bases rest := rfl
      constructor
      · rintro ⟨base, found, num, counted, _, room, succeeds⟩
        obtain ⟨graded, fits⟩ := (ih room).mp succeeds
        rw [size, poolCount_eq found counted, ← Nat.add_assoc]
        exact ⟨⟨⟨base, found, getPoolEmoCountByGrade_succeeds_iff.mp ⟨num, counted⟩⟩, graded⟩, fits⟩
      · rintro ⟨⟨⟨base, found, grade⟩, graded⟩, fits⟩
        obtain ⟨num, counted⟩ := getPoolEmoCountByGrade_succeeds_iff.mpr grade
        rw [size, poolCount_eq found counted, ← Nat.add_assoc] at fits
        have room : mtcEmoId + num ≤ u16Max := Nat.le_trans (Nat.le_add_right _ _) fits
        exact ⟨base, found, num, counted, (), room, (ih room).mpr ⟨graded, fits⟩⟩

/-- The loop goes on with the numbers and brings the copies in the order of
the ids. -/
theorem buildPoolLoop_numbers {ids : List Nat} {mtcEmoId : Nat} {deck pool : List Emo}
    (keyed : Shop.KeyedBases bases) (built : buildPoolLoop bases ids mtcEmoId deck = .ok pool) :
    pool.map Emo.id = deck.map Emo.id ++ List.range' mtcEmoId (poolSize bases ids) ∧
      pool.map Emo.baseId = deck.map Emo.baseId ++ poolBaseIds bases ids := by
  induction ids generalizing mtcEmoId deck with
  | nil =>
      cases built
      simp [poolSize, poolBaseIds]
  | cons id rest ih =>
      simp only [buildPoolLoop, Result.bind_eq_ok_iff, Bases.find_eq_ok_iff, ensure_eq_ok_iff]
        at built
      obtain ⟨base, found, num, counted, _, _, built⟩ := built
      obtain ⟨numbers, baseIds⟩ := ih built
      have count : poolCount bases id = num := poolCount_eq found counted
      have own : base.id = id := keyed id base found
      have size : poolSize bases (id :: rest) = num + poolSize bases rest := by rw [← count]; rfl
      have copies : poolBaseIds bases (id :: rest) =
          List.replicate num id ++ poolBaseIds bases rest := by rw [← count]; rfl
      constructor
      · rw [numbers, size, ← List.range'_append_1, List.map_append, List.append_assoc,
          List.map_map]
        simp [Function.comp_def]
      · rw [baseIds, copies, List.map_append, List.append_assoc, List.map_map]
        simp [Function.comp_def, own]

/-! ## Decks -/

/-- What a deck must be: six known and allowed bases of different grades, and
a count for each of them and of the fixed bases. -/
structure ValidDeck (bases : Bases) (fixedBaseIds builtBaseIds selected : List Nat) : Prop where
  size : selected.length = 6
  allowed : ∀ id ∈ selected, Resolves bases id ∧ id ∈ builtBaseIds
  distinct : (selected.map (grade? bases)).Nodup
  graded : ∀ id ∈ selected ++ fixedBaseIds, BaseGraded bases id

theorem buildPool_succeeds_iff {fixedBaseIds builtBaseIds selected : List Nat}
    (keyed : Shop.KeyedBases bases) :
    Succeeds (buildPool selected bases fixedBaseIds builtBaseIds) ↔
      ValidDeck bases fixedBaseIds builtBaseIds selected ∧
        poolSize bases (selected ++ fixedBaseIds) < u16Max := by
  rw [buildPool, succeeds_bind_iff]
  have counter : 1 ≤ u16Max := by decide
  constructor
  · rintro ⟨ids, selects, succeeds⟩
    obtain ⟨rfl, size, distinct, known⟩ := (buildBuiltBaseIds_eq_ok_iff keyed).mp selects
    obtain ⟨graded, fits⟩ := (buildPoolLoop_succeeds_iff counter).mp succeeds
    exact ⟨⟨size, fun id member => (known id member).symm, distinct, graded⟩, by omega⟩
  · rintro ⟨⟨size, allowed, distinct, graded⟩, fits⟩
    exact ⟨selected, (buildBuiltBaseIds_eq_ok_iff keyed).mpr
      ⟨rfl, size, distinct, fun id member => (allowed id member).symm⟩,
      (buildPoolLoop_succeeds_iff counter).mpr ⟨graded, by omega⟩⟩

/-- Six different grades are all the grades. -/
theorem ValidDeck.grades_perm {fixedBaseIds builtBaseIds selected : List Nat}
    (valid : ValidDeck bases fixedBaseIds builtBaseIds selected) :
    (selected.map (grade? bases)).Perm ((List.range' 1 6).map some) := by
  have within : selected.map (grade? bases) ⊆ (List.range' 1 6).map some := by
    intro grade member
    obtain ⟨id, listed, rfl⟩ := List.mem_map.mp member
    obtain ⟨base, found, lower, upper⟩ := valid.graded id (List.mem_append_left _ listed)
    refine List.mem_map.mpr ⟨base.grade, ?_, by rw [grade?, found]; rfl⟩
    rw [List.mem_range'_1]
    omega
  refine (List.subperm_of_subset valid.distinct within).perm_of_length_le ?_
  rw [List.length_map, List.length_map, valid.size]
  exact Nat.le_of_eq (List.length_range' ..)

/-- A pool is built exactly for a valid deck.  The selection then has one emo of
each grade, and the pool numbers the copies of its bases from 1 on. -/
theorem pool_matches_deck {fixedBaseIds builtBaseIds selected : List Nat}
    (keyed : ∀ id base, bases id = some base → base.id = id)
    (fits : poolSize bases (selected ++ fixedBaseIds) < 65535) :
    ((∃ pool, buildPool selected bases fixedBaseIds builtBaseIds = .ok pool) ↔
      ValidDeck bases fixedBaseIds builtBaseIds selected) ∧
    ∀ pool, buildPool selected bases fixedBaseIds builtBaseIds = .ok pool →
      (selected.map (grade? bases)).Perm ((List.range' 1 6).map some) ∧
      pool.map Emo.id = List.range' 1 pool.length ∧
      pool.length = poolSize bases (selected ++ fixedBaseIds) ∧
      ∀ baseId, (pool.map Emo.baseId).count baseId =
        (selected.count baseId + fixedBaseIds.count baseId) * poolCount bases baseId := by
  have succeeds_iff := @buildPool_succeeds_iff bases fixedBaseIds builtBaseIds selected keyed
  refine ⟨succeeds_iff.trans (and_iff_left fits), fun pool built => ?_⟩
  have valid := (succeeds_iff.mp ⟨pool, built⟩).1
  rw [buildPool, Result.bind_eq_ok_iff] at built
  obtain ⟨ids, selects, built⟩ := built
  obtain ⟨rfl, _⟩ := (buildBuiltBaseIds_eq_ok_iff keyed).mp selects
  obtain ⟨numbers, baseIds⟩ := buildPoolLoop_numbers keyed built
  have size : pool.length = poolSize bases (ids ++ fixedBaseIds) := by
    have lengths := congrArg List.length numbers
    simpa using lengths
  refine ⟨valid.grades_perm, ?_, size, fun baseId => ?_⟩
  · rw [size]
    exact numbers
  · rw [baseIds, List.map_nil, List.nil_append, count_poolBaseIds, List.count_append]

/-- A deck of one base for each grade and a fixed base that is selected too. -/
theorem pool_matches_deck_six :
    let bases : Bases := fun id => if id < 6 then some ⟨id, .human, id + 1, 1, 1, []⟩ else none
    ∃ pool, buildPool [0, 1, 2, 3, 4, 5] bases [5] [0, 1, 2, 3, 4, 5] = .ok pool ∧
      pool.map Emo.id = List.range' 1 37 ∧ (pool.map Emo.baseId).count 5 = 8 := by
  intro bases
  have keyed : ∀ id base, bases id = some base → base.id = id := by
    intro id base found
    simp only [bases] at found
    split at found <;> cases found
    rfl
  obtain ⟨succeeds, counted⟩ := @pool_matches_deck bases [5] [0, 1, 2, 3, 4, 5] [0, 1, 2, 3, 4, 5]
    keyed (by decide)
  obtain ⟨pool, built⟩ := succeeds.mpr
    ⟨rfl, by simp [bases, Resolves], by decide, by simp [BaseGraded, bases]⟩
  obtain ⟨_, numbers, size, counts⟩ := counted pool built
  refine ⟨pool, built, ?_, counts 5⟩
  rw [numbers, size]
  rfl

end EmojiBattler.Mtc
