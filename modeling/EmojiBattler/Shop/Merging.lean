import Mathlib.Algebra.Order.BigOperators.Group.List
import Mathlib.Algebra.Order.Group.Nat
import EmojiBattler.Shop.Failures

/-! # What a merge makes of a board

`process_triple` takes the copies of a base off the board and puts their triple
where the newest of them stood among the others. -/

namespace EmojiBattler.Mtc.Shop

open EmojiBattler.Emo Sampling

/-! ## The numbers of a triple

The base counts twice and every source adds what it has over the base.  The
additions of the shop saturate, but these are summed up plainly. -/

/-- The attack or the health of a triple, by the rule. -/
def mergedNum (own : Nat) (nums : List Nat) : Nat :=
  min u16Max (2 * own + (nums.map fun num => num - own).sum)

theorem le_mergedNum {own num : Nat} {nums : List Nat} (member : num ∈ nums)
    (bound : num ≤ u16Max) : num ≤ mergedNum own nums := by
  apply Nat.le_min.mpr
  have counted : num - own ≤ (nums.map fun num => num - own).sum :=
    List.le_sum_of_mem (List.mem_map.mpr ⟨num, member, rfl⟩)
  exact ⟨bound, by omega⟩

theorem mergedNum_eq_saturating (own : Nat) (nums : List Nat) :
    saturatingAddU16 (saturatingMulU16 own 2) (nums.map fun num => num - own).sum =
      mergedNum own nums := by
  simp only [saturatingAddU16, saturatingMulU16, mergedNum]
  omega

theorem buildTripleEmoNums_eq_ok_iff {base : Base} {sources : List ShopBoardEmo}
    {nums : Nat × Nat} :
    buildTripleEmoNums base sources = .ok nums ↔ SumsFit base sources ∧
      nums = (mergedNum base.attack (sources.map fun emo => emo.attributes.attack),
        mergedNum base.health (sources.map fun emo => emo.attributes.health)) := by
  simp only [buildTripleEmoNums, Result.bind_eq_ok_iff, sumU16_eq_ok_iff, Result.pure_eq_ok_iff,
    ← mergedNum_eq_saturating, List.map_map, SumsFit]
  constructor
  · rintro ⟨_, ⟨attackFits, rfl⟩, _, ⟨healthFits, rfl⟩, rfl⟩
    exact ⟨⟨attackFits, healthFits⟩, rfl⟩
  · rintro ⟨⟨attackFits, healthFits⟩, rfl⟩
    exact ⟨_, ⟨attackFits, rfl⟩, _, ⟨healthFits, rfl⟩, rfl⟩

/-- A merge follows the rule and loses no stats, exactly when what the sources
have over the base can be summed up in a `u16`. -/
theorem triple_keeps_stats_iff (base : Base) (sources : List ShopBoardEmo)
    (bounded : ∀ emo ∈ sources,
      emo.attributes.attack ≤ u16Max ∧ emo.attributes.health ≤ u16Max) :
    (∃ attack health, buildTripleEmoNums base sources = .ok (attack, health) ∧
        attack = min u16Max (2 * base.attack +
          (sources.map fun emo => emo.attributes.attack - base.attack).sum) ∧
        health = min u16Max (2 * base.health +
          (sources.map fun emo => emo.attributes.health - base.health).sum) ∧
        ∀ emo ∈ sources, emo.attributes.attack ≤ attack ∧ emo.attributes.health ≤ health) ↔
      (sources.map fun emo => emo.attributes.attack - base.attack).sum ≤ u16Max ∧
        (sources.map fun emo => emo.attributes.health - base.health).sum ≤ u16Max := by
  constructor
  · rintro ⟨attack, health, built, _⟩
    exact (buildTripleEmoNums_eq_ok_iff.mp built).1
  · intro sums
    refine ⟨_, _, buildTripleEmoNums_eq_ok_iff.mpr ⟨sums, rfl⟩, ?_, ?_, fun emo member => ?_⟩
    · rw [mergedNum, List.map_map]
      rfl
    · rw [mergedNum, List.map_map]
      rfl
    · have inRange := bounded emo member
      exact ⟨le_mergedNum (List.mem_map.mpr ⟨emo, member, rfl⟩) inRange.1,
        le_mergedNum (List.mem_map.mpr ⟨emo, member, rfl⟩) inRange.2⟩

/-- Three copies that have grown to the largest attack overflow the sum. -/
theorem triple_of_largest_sources_overflows :
    let base : Base := ⟨1, .human, 1, 1, 1, []⟩
    let source (id : Nat) : ShopBoardEmo := ⟨id, [id], 1, ⟨u16Max, 1, [], false⟩⟩
    buildTripleEmoNums base [source 0, source 1, source 2] = .error .arithmeticOverflow := by
  decide +kernel

theorem triple_keeps_stats_of_largest_source :
    let base : Base := ⟨1, .human, 1, 1, 1, []⟩
    let source (attack : Nat) : ShopBoardEmo := ⟨0, [0], 1, ⟨attack, 1, [], false⟩⟩
    ∃ attack health,
      buildTripleEmoNums base [source u16Max, source 1, source 1] = .ok (attack, health) ∧
        attack = u16Max ∧ health = 2 := by
  intro base source
  have bounded : ∀ emo ∈ [source u16Max, source 1, source 1],
      emo.attributes.attack ≤ u16Max ∧ emo.attributes.health ≤ u16Max := by decide
  obtain ⟨attack, health, built, attackEq, healthEq, _⟩ :=
    (triple_keeps_stats_iff base [source u16Max, source 1, source 1] bounded).mpr (by decide)
  exact ⟨attack, health, built, attackEq.trans (by decide), healthEq.trans (by decide)⟩

/-! ## The board after a merge -/

section Merges

variable {state : ShopState} {target : ShopBoardEmo} {position : Nat}

/-- On a board of distinct emos the check finds the emo where it stands. -/
theorem getEmoAndIndexById_of_getElem? {board : ShopBoard} (small : board.length ≤ u8Max)
    (distinct : board.emoIds.Nodup) (standing : board[position]? = some target) :
    board.getEmoAndIndexById target.id = .ok (target, position) := by
  have listed : target.id ∈ board.emoIds :=
    List.mem_map.mpr ⟨target, List.mem_of_getElem? standing, rfl⟩
  obtain ⟨⟨emo, index⟩, found⟩ := exists_find?_zipIdx_iff.mpr listed
  have looked : board.getEmoAndIndexById target.id = .ok (emo, index) := by
    have counted : min (board.findIdx (fun emo => emo.id = target.id) + 1) board.length ≤ u8Max :=
      Nat.le_trans (Nat.min_le_right ..) small
    simp only [ShopBoard.getEmoAndIndexById, findZipU8, if_pos counted, found]
    rfl
  obtain ⟨located, identified⟩ := ShopBoard.getEmoAndIndexById_found looked
  have here : board.emoIds[position]? = some target.id := by
    simp [ShopBoard.emoIds, standing]
  have there : board.emoIds[index]? = some target.id := by
    simp [ShopBoard.emoIds, located, identified]
  have bound := (List.getElem?_eq_some_iff.mp here).1
  have same := (List.getElem?_inj bound distinct).mp (here.trans there.symm)
  subst same
  rw [standing] at located
  rw [looked, Option.some.inj located]

/-- The index of a triple: as many emos stay as stood left of the new one. -/
theorem tripleIndex_eq (holds : ShopBoardEmo → Bool) {board : ShopBoard}
    (bound : position ≤ board.length) :
    checkedSub position (((board.zipIdx.filter fun (emo, _) => holds emo).map Prod.snd).filter
      (· < position)).length = some ((board.take position).filter fun emo => !holds emo).length := by
  have before := Positions.length_filter_lt_zipIdx holds board 0 position
  simp only [Nat.zero_add] at before
  have whole := List.length_eq_length_filter_add (l := board.take position) holds
  rw [List.length_take_of_le bound] at whole
  rw [before, checkedSub, if_pos (by omega)]
  congr 1
  omega

theorem addEmoWithBoardEmo_board {env : Env} {newEmo : ShopBoardEmo} {emoIndex : Nat}
    {after : ShopState} {calls : List (Task env.sampler)}
    (added : addEmoWithBoardEmo env newEmo emoIndex state = .ok (calls, after)) :
    after.board = state.board.insertIdx emoIndex newEmo := by
  simp only [addEmoWithBoardEmo, Result.bind_eq_ok_iff, ensure_eq_ok_iff, Result.pure_eq_ok_iff,
    Prod.mk.injEq] at added
  obtain ⟨_, _, _, _, _, _, _, rfl⟩ := added
  simp

/-- A merge takes exactly the copies of the new emo's base off the board and
puts their triple where the new emo stood among the others.  Without three
copies the board stays. -/
theorem processTriple_merges_in_place (env : Env) (small : state.board.length ≤ u8Max)
    (distinct : state.board.emoIds.Nodup) (standing : state.board[position]? = some target) :
    let sources := state.board.filter (isSameBaseNotTriple target.baseId)
    let others := state.board.filter fun emo => !isSameBaseNotTriple target.baseId emo
    let leftOthers :=
      ((state.board.take position).filter fun emo => !isSameBaseNotTriple target.baseId emo).length
    let removedIndexes := (state.board.zipIdx.filter fun (emo, _) =>
      isSameBaseNotTriple target.baseId emo).map Prod.snd
    let merged := { state with board := others, generatedIds := state.generatedIds + 1 }
    leftOthers ≤ others.length ∧
      (3 ≤ sources.length →
        (processTriple env target.id state = do
          let triple ← buildTripleEmo env state.generatedIds sources target.baseId
          let (calls, after) ← addEmoWithBoardEmo env triple leftOthers
            (merged.addLog env (.triple removedIndexes))
          return (calls ++ [.processTripleReturn state.gottenCoin], after)) ∧
        (∀ triple, buildTripleEmo env state.generatedIds sources target.baseId = .ok triple →
          triple.mtcEmoIds = sources.flatMap ShopBoardEmo.mtcEmoIds ∧
            ∃ base, env.emoBases target.baseId = some base ∧
              triple.attributes.abilities = base.abilities ++ sources.flatMap fun emo =>
                emo.attributes.abilities.filter fun ability => ability ∉ base.abilities) ∧
        ∀ calls after, processTriple env target.id state = .ok (calls, after) →
          ∃ triple, buildTripleEmo env state.generatedIds sources target.baseId = .ok triple ∧
            after.board = others.insertIdx leftOthers triple) ∧
      (sources.length < 3 → processTriple env target.id state = .ok ([], state)) := by
  intro sources others leftOthers removedIndexes merged
  have looked := getEmoAndIndexById_of_getElem? small distinct standing
  have bound := Nat.le_of_lt (List.getElem?_eq_some_iff.mp standing).1
  have indexed : state.board.emosWithIndexes = .ok state.board.zipIdx := if_pos small
  have counted : removedIndexes.length = sources.length := Positions.length_filter_zipIdx ..
  have removed := removeTripleEmos_filter (isSameBaseNotTriple target.baseId) state.board
  have placed := tripleIndex_eq (isSameBaseNotTriple target.baseId) bound
  have processed : processTriple env target.id state =
      if 3 ≤ sources.length then do
        let triple ← buildTripleEmo env state.generatedIds sources target.baseId
        let (calls, after) ← addEmoWithBoardEmo env triple leftOthers
          (merged.addLog env (.triple removedIndexes))
        return (calls ++ [.processTripleReturn state.gottenCoin], after)
      else return ([], state) := by
    simp only [processTriple, looked, indexed, bind, Except.bind]
    rw [counted]
    split
    · simp only [removed, placed, okOr]
      rfl
    · rfl
  refine ⟨?_, fun enough => ⟨?_, fun triple built => ?_, fun calls after done => ?_⟩, fun few => ?_⟩
  · exact ((List.take_sublist position state.board).filter _).length_le
  · rw [processed, if_pos enough]
  · have shape := buildTripleEmo_triple built
    obtain ⟨base, found, _, abilities⟩ := shape.base
    exact ⟨shape.mtcEmoIds, base, found, abilities⟩
  · rw [processed, if_pos enough] at done
    simp only [Result.bind_eq_ok_iff, Result.pure_eq_ok_iff, Prod.mk.injEq] at done
    obtain ⟨triple, built, ⟨_, _⟩, added, _, rfl⟩ := done
    refine ⟨triple, built, (addEmoWithBoardEmo_board added).trans ?_⟩
    rw [ShopState.addLog_board]
  · rw [processed, if_neg (Nat.not_le.mpr few)]
    rfl

/-- Three copies among two other emos; the newest copy is the one in the
middle, with one other emo on its left. -/
theorem processTriple_merges_three_copies :
    let base : Base := ⟨1, .human, 1, 1, 1, []⟩
    let env : Env := { emoBases := fun id => if id = 1 then some base else none, sampler := .first }
    let emo (id baseId : Nat) : ShopBoardEmo := ⟨id, [10 + id], baseId, ⟨1, 1, [], false⟩⟩
    let state : ShopState := ⟨[emo 0 1, emo 1 2, emo 2 1, emo 3 1, emo 4 2], [], 0, 5⟩
    let triple : ShopBoardEmo := ⟨5, [10, 12, 13], 1, ⟨2, 2, [], true⟩⟩
    ∃ calls after, processTriple env 2 state = .ok (calls, after) ∧
      after.board = [emo 1 2, triple, emo 4 2] := by
  intro base env emo state triple
  have merges := @processTriple_merges_in_place state (emo 2 1) 2 env (by decide) (by decide) rfl
  obtain ⟨calls, after, performed⟩ : ∃ calls after, processTriple env 2 state = .ok (calls, after) :=
    ⟨_, _, rfl⟩
  obtain ⟨merged, built, board⟩ := (merges.2.1 (by decide)).2.2 calls after performed
  have computed : buildTripleEmo env 5 [emo 0 1, emo 2 1, emo 3 1] 1 = .ok triple := rfl
  have same : merged = triple := Except.ok.inj (built.symm.trans computed)
  subst same
  exact ⟨calls, after, performed, board⟩

end Merges

end EmojiBattler.Mtc.Shop
