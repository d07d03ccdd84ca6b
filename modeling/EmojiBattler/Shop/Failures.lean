import EmojiBattler.Shop.Legality
import EmojiBattler.Shop.Termination
import EmojiBattler.Shop.Turn

/-! # When a task of the shop fails

On legal bases the only failures left are those of an emo that a triple has
taken off the board, of a former index that the board has become too short for,
and of a triple whose numbers overflow. -/

namespace EmojiBattler.Mtc.Shop

open EmojiBattler.Emo Sampling CallMachine Contracts
open EmojiBattler.Emo.Ability (Destination Target TypOptAndIsTripleOpt)
open EmojiBattler.Emo.Ability.Shop (NormalAction Peri PeriAsAllyAction Pre)

/-! ## The condition -/

/-- The emo that the pointer stands for can still be read. -/
def Standing (board : ShopBoard) : EmoPointer → Prop
  | .onBoard emoId => emoId ∈ board.emoIds
  | .removed _ _ => True

/-- The place next to the emo that the pointer stands for is still there. -/
def Placed (board : ShopBoard) : EmoPointer → Prop
  | .onBoard emoId => emoId ∈ board.emoIds
  | .removed _ prevEmoIndex => prevEmoIndex ≤ board.length

def TargetHolds (board : ShopBoard) (emoPointer : EmoPointer) : Target → Prop
  | .oneself | .others .right _ => Standing board emoPointer
  | .others .left _ => Placed board emoPointer
  | .others .all _ => True

def ActionHolds (board : ShopBoard) (emoPointer : EmoPointer) : NormalAction → Prop
  | .setEmo _ => board.length < boardEmoMaxCount → Placed board emoPointer
  | .increaseStats target _ _ | .increaseStatsByEmoCount target _ _ _ | .addAbility target _ =>
      TargetHolds board emoPointer target
  | .increaseStatsByGrade target _ _ =>
      Standing board emoPointer ∧ TargetHolds board emoPointer target
  | .increaseStatsOfAdjacentMenagerie _ _ => Placed board emoPointer
  | .getCoin _ | .getCoinByEmoCountDiv _ _ => True

/-- What the merged emos have above their base fits a `u16`. -/
def SumsFit (base : Base) (sources : List ShopBoardEmo) : Prop :=
  (sources.map fun emo => emo.attributes.attack - base.attack).sum ≤ u16Max ∧
    (sources.map fun emo => emo.attributes.health - base.health).sum ≤ u16Max

/-- The emos that the task speaks of are where it expects them. -/
def Holds (env : Env) (task : Task env.sampler) (board : ShopBoard) : Prop :=
  match task with
  | .callPreAbilities _ ((actionEmoId, .random _) :: _) => actionEmoId ∈ board.emoIds
  | .callAbilityActionAsOneself _ actionEmoPointer => Standing board actionEmoPointer
  | .callAbilityActionAsAlly action oneselfEmoId allyEmoPointer =>
      oneselfEmoId ∈ board.emoIds ∧
        (action = .custom .triggerSetActions → Standing board allyEmoPointer)
  | .callAbilityAction action actionEmoPointer _ => ActionHolds board actionEmoPointer action
  | .processTriple newEmoId =>
      newEmoId ∈ board.emoIds ∧ ∀ target newEmoIndex base,
        board.getEmoAndIndexById newEmoId = .ok (target, newEmoIndex) →
        3 ≤ (board.filter (isSameBaseNotTriple target.baseId)).length →
        env.emoBases target.baseId = some base →
          SumsFit base (board.filter (isSameBaseNotTriple target.baseId))
  | _ => True

/-! ## Lookups -/

section Lookups

variable {board : ShopBoard} {id : Nat}

theorem exists_find?_iff :
    (∃ emo, board.find? (fun emo => emo.id = id) = some emo) ↔ id ∈ board.emoIds := by
  rw [← Option.isSome_iff_exists, List.find?_isSome]
  simp [ShopBoard.emoIds]

theorem getEmoById_succeeds_iff : Succeeds (board.getEmoById id) ↔ id ∈ board.emoIds := by
  rw [ShopBoard.getEmoById, succeeds_okOr_iff, exists_find?_iff]

theorem getEmoMutById_succeeds_iff : Succeeds (board.getEmoMutById id) ↔ id ∈ board.emoIds := by
  rw [ShopBoard.getEmoMutById, succeeds_okOr_iff, exists_find?_iff]

/-- On a board the counter does not overflow. -/
theorem findZipU8_small {holds : ShopBoardEmo → Bool}
    (small : board.length ≤ boardEmoMaxCount) :
    findZipU8 holds board = .ok (board.zipIdx.find? fun (emo, _) => holds emo) := by
  apply if_pos
  have counted : boardEmoMaxCount ≤ u8Max := by decide
  omega

theorem exists_find?_zipIdx_iff :
    (∃ found, board.zipIdx.find? (fun (emo, _) => decide (emo.id = id)) = some found) ↔
      id ∈ board.emoIds := by
  rw [← Option.isSome_iff_exists, List.find?_isSome]
  constructor
  · rintro ⟨⟨emo, index⟩, member, same⟩
    exact List.mem_map.mpr ⟨emo, List.mem_of_getElem? (List.mem_zipIdx_iff_getElem?.mp member),
      of_decide_eq_true same⟩
  · intro member
    obtain ⟨emo, present, rfl⟩ := List.mem_map.mp member
    obtain ⟨index, found⟩ := List.mem_iff_getElem?.mp present
    exact ⟨(emo, index), List.mem_zipIdx_iff_getElem?.mpr found, decide_eq_true rfl⟩

variable (small : board.length ≤ boardEmoMaxCount)
include small

theorem getEmoMutAndIndexById_succeeds_iff :
    Succeeds (board.getEmoMutAndIndexById id) ↔ id ∈ board.emoIds := by
  rw [ShopBoard.getEmoMutAndIndexById, findZipU8_small small, ← exists_find?_zipIdx_iff]
  exact succeeds_okOr_iff

theorem getEmoAndIndexById_succeeds_iff :
    Succeeds (board.getEmoAndIndexById id) ↔ id ∈ board.emoIds := by
  rw [ShopBoard.getEmoAndIndexById, findZipU8_small small, ← exists_find?_zipIdx_iff]
  exact succeeds_okOr_iff

theorem getEmoIndexById_succeeds_iff :
    Succeeds (board.getEmoIndexById id) ↔ id ∈ board.emoIds := by
  rw [ShopBoard.getEmoIndexById, findZipU8_small small, ← exists_find?_zipIdx_iff]
  refine Iff.trans succeeds_okOr_iff ?_
  simp only [Option.map_eq_some_iff]
  constructor
  · rintro ⟨_, found, known, _⟩
    exact ⟨found, known⟩
  · rintro ⟨found, known⟩
    exact ⟨_, found, known, rfl⟩

omit small in
theorem getEmoIndexById_lt {index : Nat} (found : board.getEmoIndexById id = .ok index) :
    index < board.length := by
  obtain ⟨emo, standing, _⟩ := ShopBoard.getEmoIndexById_found found
  exact (List.getElem?_eq_some_iff.mp standing).1

/-! ## Pointers and targets -/

variable {emoPointer : EmoPointer}

omit small in
theorem getEmo_succeeds_iff :
    Succeeds (emoPointer.getEmo board) ↔ Standing board emoPointer := by
  cases emoPointer with
  | onBoard emoId => exact getEmoById_succeeds_iff
  | removed emo prevEmoIndex => exact iff_of_true (succeeds_ok _) trivial

theorem getRightEmoIndex_succeeds_iff :
    Succeeds (emoPointer.getRightEmoIndex board) ↔ Standing board emoPointer := by
  cases emoPointer with
  | onBoard emoId => exact succeeds_map_iff.trans (getEmoIndexById_succeeds_iff small)
  | removed emo prevEmoIndex => exact iff_of_true (succeeds_ok _) trivial

theorem getRightEmoId_succeeds_iff :
    Succeeds (getRightEmoId board emoPointer) ↔ Standing board emoPointer := by
  rw [getRightEmoId, succeeds_bind_iff, ← getRightEmoIndex_succeeds_iff small]
  exact exists_congr fun _ => and_iff_left (succeeds_pure _)

theorem getLeftEmoId_succeeds_iff :
    Succeeds (getLeftEmoId board emoPointer) ↔ Placed board emoPointer := by
  rw [getLeftEmoId, succeeds_bind_iff]
  apply Iff.trans (b := ∃ index, emoPointer.getEmoIndex board = .ok index ∧ index ≤ board.length)
  · refine exists_congr fun index => and_congr_right fun _ => ?_
    cases index with
    | zero => exact iff_of_true (succeeds_pure _) (Nat.zero_le _)
    | succ index =>
        simp only [checkedSub, Nat.le_add_left, if_true, Nat.add_sub_cancel, succeeds_map_iff,
          ShopBoard.getEmoIdByIndex, succeeds_okOr_iff, Option.map_eq_some_iff]
        constructor
        · rintro ⟨_, emo, found, _⟩
          exact (List.getElem?_eq_some_iff.mp found).1
        · intro bound
          exact ⟨_, _, List.getElem?_eq_getElem bound, rfl⟩
  · cases emoPointer with
    | onBoard emoId =>
        rw [Placed, ← getEmoIndexById_succeeds_iff small]
        refine exists_congr fun index => and_iff_left_of_imp fun found => ?_
        exact Nat.le_of_lt (getEmoIndexById_lt found)
    | removed emo prevEmoIndex =>
        simp [EmoPointer.getEmoIndex, Placed]

end Lookups

section Targets

variable {env : Env} {board : ShopBoard} {emoPointer : EmoPointer}
variable {typAndTriple : TypOptAndIsTripleOpt}

theorem find_succeeds {bases : Bases} {id : Nat} (resolves : Resolves bases id) :
    Succeeds (bases.find id) := by
  obtain ⟨base, found⟩ := resolves
  exact ⟨base, Emo.Bases.find_eq_ok_iff.mpr found⟩

theorem isMatchedTypAndTripleBoardEmo_succeeds (typAndTriple : TypOptAndIsTripleOpt)
    {emo : ShopBoardEmo} (legal : LegalEmo env.emoBases emo) :
    Succeeds (isMatchedTypAndTripleBoardEmo env typAndTriple emo) := by
  unfold isMatchedTypAndTripleBoardEmo
  split
  · exact succeeds_pure _
  · obtain ⟨base, found⟩ := find_succeeds legal.base
    exact succeeds_bind_iff.mpr ⟨base, found, succeeds_pure _⟩

theorem filterMatchedEmoIds_succeeds (typAndTriple : TypOptAndIsTripleOpt) {ids : List Nat}
    (legal : LegalBoard env.emoBases board)
    (present : ∀ id ∈ ids, id ∈ board.emoIds) :
    Succeeds (filterMatchedEmoIds env board typAndTriple ids) := by
  induction ids with
  | nil => exact succeeds_pure _
  | cons id rest ih =>
      rw [List.forall_mem_cons] at present
      obtain ⟨emo, found⟩ := getEmoById_succeeds_iff.mpr present.1
      obtain ⟨isMatched, matched⟩ := isMatchedTypAndTripleBoardEmo_succeeds
        typAndTriple (legal emo (ShopBoard.getEmoById_found found).1)
      obtain ⟨filteredIds, filtered⟩ := ih present.2
      simp only [filterMatchedEmoIds, succeeds_bind_iff]
      exact ⟨emo, found, isMatched, matched, filteredIds, filtered, succeeds_pure _⟩

theorem filterMatchedEmoIds_subset {ids filteredIds : List Nat}
    (filtered : filterMatchedEmoIds env board typAndTriple ids = .ok filteredIds) :
    filteredIds ⊆ ids := by
  induction ids generalizing filteredIds with
  | nil =>
      cases filtered
      exact List.Subset.refl _
  | cons id rest ih =>
      simp only [filterMatchedEmoIds, Result.bind_eq_ok_iff, Result.pure_eq_ok_iff] at filtered
      obtain ⟨emo, _, isMatched, _, others, performed, rfl⟩ := filtered
      have kept := ih performed
      split
      · exact List.cons_subset_cons id kept
      · exact List.Subset.trans kept (List.subset_cons_self id rest)

theorem getEmoIdByIndex_mem {index id : Nat} (found : board.getEmoIdByIndex index = .ok id) :
    id ∈ board.emoIds := by
  simp only [ShopBoard.getEmoIdByIndex, okOr_eq_ok_iff, Option.map_eq_some_iff] at found
  obtain ⟨emo, standing, rfl⟩ := found
  exact List.mem_map_of_mem (List.mem_of_getElem? standing)

theorem getRightEmoId_mem {id : Nat} (found : getRightEmoId board emoPointer = .ok (some id)) :
    id ∈ board.emoIds := by
  simp only [getRightEmoId, Result.bind_eq_ok_iff, Result.pure_eq_ok_iff] at found
  obtain ⟨index, _, found⟩ := found
  cases looked : board.getEmoIdByIndex index with
  | error error =>
      rw [looked] at found
      cases found
  | ok other =>
      rw [looked] at found
      cases found
      exact getEmoIdByIndex_mem looked

theorem getLeftEmoId_mem {id : Nat} (found : getLeftEmoId board emoPointer = .ok (some id)) :
    id ∈ board.emoIds := by
  simp only [getLeftEmoId, Result.bind_eq_ok_iff] at found
  obtain ⟨index, _, found⟩ := found
  split at found
  · simp only [Result.map_eq_ok_iff, Option.some.injEq, exists_eq_right] at found
    exact getEmoIdByIndex_mem found
  · cases found

theorem getEmoIdsByDestination_subset {destination : Destination} {ids : List Nat}
    (found : getEmoIdsByDestination board emoPointer destination = .ok ids) :
    ids ⊆ board.emoIds := by
  have of_toList {idOpt : Option Nat} (inside : ∀ id, idOpt = some id → id ∈ board.emoIds) :
      idOpt.toList ⊆ board.emoIds := by
    intro id member
    exact inside id (Option.mem_toList.mp member)
  cases destination with
  | right =>
      simp only [getEmoIdsByDestination, Result.map_eq_ok_iff] at found
      obtain ⟨idOpt, looked, rfl⟩ := found
      exact of_toList fun id same => getRightEmoId_mem (same ▸ looked)
  | left =>
      simp only [getEmoIdsByDestination, Result.map_eq_ok_iff] at found
      obtain ⟨idOpt, looked, rfl⟩ := found
      exact of_toList fun id same => getLeftEmoId_mem (same ▸ looked)
  | all =>
      cases found
      exact List.filter_sublist.subset

theorem getEmoIdsByDestination_succeeds_iff {destination : Destination}
    (small : board.length ≤ boardEmoMaxCount) :
    Succeeds (getEmoIdsByDestination board emoPointer destination) ↔
      TargetHolds board emoPointer (.others destination typAndTriple) := by
  cases destination with
  | right => exact succeeds_map_iff.trans (getRightEmoId_succeeds_iff small)
  | left => exact succeeds_map_iff.trans (getLeftEmoId_succeeds_iff small)
  | all => exact iff_of_true (succeeds_pure _) trivial

end Targets

/-! ## Changing emos -/

section Changes

variable {env : Env} {emoPointer : EmoPointer} {state : ShopState}

theorem Update.emoIds_eq {before after : ShopState} (update : Update before after) :
    after.board.emoIds = before.board.emoIds :=
  update.board.map_eq Changed.id_eq

/-- A change of one emo, given by its id. -/
structure Targeted (env : Env) (f : ShopState → Nat → Result ShopState) : Prop where
  succeeds_iff : ∀ {state : ShopState} {id : Nat}, state.board.length ≤ boardEmoMaxCount →
    (Succeeds (f state id) ↔ id ∈ state.board.emoIds)
  writes : ∀ {state : ShopState} {id : Nat} {after : ShopState}, f state id = .ok after →
    Writes env state after

theorem targeted_addAttackAndHealthToEmo (env : Env) (attack health : Nat) :
    Targeted env (addAttackAndHealthToEmo env attack health) where
  succeeds_iff small := by
    rw [addAttackAndHealthToEmo, succeeds_bind_iff, ← getEmoMutAndIndexById_succeeds_iff small]
    exact exists_congr fun _ => and_iff_left (succeeds_pure _)
  writes := addAttackAndHealthToEmo_writes

theorem targeted_addAbilityToEmo (env : Env) (ability : Ability) :
    Targeted env (addAbilityToEmo env ability) where
  succeeds_iff small := by
    rw [addAbilityToEmo, succeeds_bind_iff, ← getEmoMutAndIndexById_succeeds_iff small]
    refine exists_congr fun entry => and_iff_left ?_
    obtain ⟨emo, index⟩ := entry
    dsimp only
    split <;> exact succeeds_pure _
  writes := addAbilityToEmo_writes

theorem Targeted.foldlM_succeeds {f : ShopState → Nat → Result ShopState}
    (targeted : Targeted env f) {ids : List Nat} (small : state.board.length ≤ boardEmoMaxCount)
    (present : ids ⊆ state.board.emoIds) : Succeeds (ids.foldlM f state) := by
  refine succeeds_foldlM (I := fun middle : ShopState =>
    middle.board.length ≤ boardEmoMaxCount ∧ middle.board.emoIds = state.board.emoIds)
    ⟨small, rfl⟩ fun id member middle holds => ?_
  obtain ⟨bound, same⟩ := holds
  obtain ⟨after, performed⟩ := (targeted.succeeds_iff bound).mpr (same ▸ present member)
  have update := (targeted.writes performed).update
  exact ⟨after, performed, by rwa [update.size_eq.1], update.emoIds_eq.trans same⟩

/-- Changing the targets succeeds exactly when they can be found. -/
theorem Targeted.succeeds_on_targets_iff {f : ShopState → Nat → Result ShopState}
    (targeted : Targeted env f) {target : Target}
    (legal : LegalBoard env.emoBases state.board)
    (small : state.board.length ≤ boardEmoMaxCount) :
    Succeeds (getEmoIdsByTarget env state.board emoPointer target >>= fun ids =>
      ids.foldlM f state) ↔ TargetHolds state.board emoPointer target := by
  cases target with
  | oneself =>
      cases emoPointer with
      | onBoard emoId =>
          have single : Succeeds ([emoId].foldlM f state) ↔ Succeeds (f state emoId) := by
            rw [List.foldlM_cons, succeeds_bind_iff]
            exact exists_congr fun _ => and_iff_left (succeeds_pure _)
          exact single.trans (targeted.succeeds_iff small)
      | removed emo prevEmoIndex => exact iff_of_true (succeeds_pure _) trivial
  | others destination typAndTriple =>
      rw [← getEmoIdsByDestination_succeeds_iff small, getEmoIdsByTarget, bind_assoc,
        succeeds_bind_iff]
      refine exists_congr fun ids => and_iff_left_of_imp fun found => ?_
      have present := getEmoIdsByDestination_subset found
      obtain ⟨filteredIds, filtered⟩ := filterMatchedEmoIds_succeeds
        typAndTriple legal present
      refine succeeds_bind_iff.mpr ⟨filteredIds, filtered, ?_⟩
      exact targeted.foldlM_succeeds small
        (List.Subset.trans (filterMatchedEmoIds_subset filtered) present)

variable (legal : LegalBoard env.emoBases state.board)
variable (small : state.board.length ≤ boardEmoMaxCount)
include legal small

theorem addAttackAndHealthToEmos_succeeds_iff {target : Target} {attack health : Nat} :
    Succeeds (addAttackAndHealthToEmos env emoPointer target attack health state) ↔
      TargetHolds state.board emoPointer target :=
  (targeted_addAttackAndHealthToEmo env attack health).succeeds_on_targets_iff legal small

theorem addAbility_succeeds_iff {target : Target} {ability : Ability} :
    Succeeds (addAbility env emoPointer target ability state) ↔
      TargetHolds state.board emoPointer target :=
  (targeted_addAbilityToEmo env ability).succeeds_on_targets_iff legal small

theorem countEmosByTypAndTriple_succeeds {countCondition : TypOptAndIsTripleOpt} :
    Succeeds (countEmosByTypAndTriple env state.board emoPointer countCondition) := by
  have counts : ∀ {board : ShopBoard} {count : Nat}, LegalBoard env.emoBases board →
      count + board.length ≤ u8Max →
      Succeeds (board.foldlM (countEmoByTypAndTriple env emoPointer.getEmoId countCondition)
        count) := by
    intro board
    induction board with
    | nil => exact fun _ _ => succeeds_pure _
    | cons emo rest ih =>
        intro count legal bound
        rw [LegalBoard, List.forall_mem_cons] at legal
        rw [List.length_cons] at bound
        obtain ⟨isMatched, matched⟩ := isMatchedTypAndTripleBoardEmo_succeeds
          countCondition legal.1
        have counted : ∃ next, countEmoByTypAndTriple env emoPointer.getEmoId countCondition count
            emo = .ok next ∧ next ≤ count + 1 := by
          unfold countEmoByTypAndTriple
          split
          · exact ⟨count, rfl, Nat.le_succ _⟩
          · simp only [Result.bind_eq_ok_iff, matched]
            cases isMatched with
            | true =>
                refine ⟨count + 1, ⟨true, rfl, ?_⟩, Nat.le_refl _⟩
                exact addU8_eq_ok_iff.mpr ⟨by omega, rfl⟩
            | false => exact ⟨count, ⟨false, rfl, rfl⟩, Nat.le_succ _⟩
        obtain ⟨next, counted, near⟩ := counted
        rw [List.foldlM_cons, succeeds_bind_iff]
        exact ⟨next, counted, ih legal.2 (by omega)⟩
  apply counts legal
  have fits : boardEmoMaxCount ≤ u8Max := by decide
  omega

/-- The emo on the left is changed exactly when its place can be found. -/
theorem increaseStatsOfLeft_succeeds_iff (attack health : Nat) :
    Succeeds (increaseStatsOfLeft env emoPointer attack health state) ↔
      Placed state.board emoPointer := by
  rw [increaseStatsOfLeft, succeeds_bind_iff, ← getLeftEmoId_succeeds_iff small]
  refine exists_congr fun idOpt => and_iff_left_of_imp fun found => ?_
  cases idOpt with
  | none => exact succeeds_pure _
  | some id =>
      obtain ⟨emo, looked⟩ := getEmoById_succeeds_iff.mpr (getLeftEmoId_mem found)
      obtain ⟨member, rfl⟩ := ShopBoard.getEmoById_found looked
      obtain ⟨base, resolved⟩ := find_succeeds (legal emo member).base
      obtain ⟨after, changed⟩ :=
        ((targeted_addAttackAndHealthToEmo env attack health).succeeds_iff small).mpr
          (getLeftEmoId_mem found)
      simp only [succeeds_bind_iff]
      exact ⟨emo, looked, base, resolved, after, changed, succeeds_pure _⟩

theorem increaseStatsOfRight_succeeds {leftTypOpt : Option Typ} {attack health : Nat}
    (standing : Standing state.board emoPointer) :
    Succeeds (increaseStatsOfRight env emoPointer leftTypOpt attack health state) := by
  obtain ⟨idOpt, found⟩ := (getRightEmoId_succeeds_iff small).mpr standing
  refine succeeds_bind_iff.mpr ⟨idOpt, found, ?_⟩
  cases idOpt with
  | none => exact succeeds_pure _
  | some id =>
      obtain ⟨emo, looked⟩ := getEmoById_succeeds_iff.mpr (getRightEmoId_mem found)
      obtain ⟨member, rfl⟩ := ShopBoard.getEmoById_found looked
      obtain ⟨base, resolved⟩ := find_succeeds (legal emo member).base
      have changes :=
        ((targeted_addAttackAndHealthToEmo env attack health).succeeds_iff small).mpr
          (getRightEmoId_mem found)
      refine succeeds_bind_iff.mpr ⟨emo, looked, ?_⟩
      cases leftTypOpt with
      | none => exact changes
      | some leftTyp =>
          refine succeeds_bind_iff.mpr ⟨base, resolved, ?_⟩
          split
          · exact changes
          · exact succeeds_pure _

theorem increaseStatsOfAdjacentMenagerie_succeeds_iff {isTripleAction : Bool}
    {attack health : Nat} :
    Succeeds (increaseStatsOfAdjacentMenagerie env emoPointer isTripleAction attack health
      state) ↔ Placed state.board emoPointer := by
  unfold increaseStatsOfAdjacentMenagerie
  generalize doubleAttackAndHealthIf isTripleAction attack health = doubled
  obtain ⟨attack, health⟩ := doubled
  dsimp only
  rw [succeeds_bind_iff, ← increaseStatsOfLeft_succeeds_iff legal small attack health]
  refine exists_congr fun ⟨leftTypOpt, after⟩ => and_iff_left_of_imp fun left => ?_
  have update := (increaseStatsOfLeft_writes left).update
  have placed := (increaseStatsOfLeft_succeeds_iff legal small attack health).mp ⟨_, left⟩
  have standing : Standing after.board emoPointer := by
    cases emoPointer with
    | onBoard emoId =>
        rw [Standing, update.emoIds_eq]
        exact placed
    | removed emo prevEmoIndex => trivial
  exact increaseStatsOfRight_succeeds ((sound_increaseStatsOfLeft legal).result left)
    (by rwa [update.size_eq.1]) standing

theorem increaseStatsOfMenagerieLoop_succeeds (actionEmoId typCount attack health : Nat)
    {emoIds : List Nat} (typs : List Typ) (present : emoIds ⊆ state.board.emoIds) :
    Succeeds (increaseStatsOfMenagerieLoop env actionEmoId typCount attack health emoIds typs
      state) := by
  induction emoIds generalizing typs state with
  | nil => exact succeeds_pure _
  | cons candidateEmoId rest ih =>
      obtain ⟨here, later⟩ := List.cons_subset.mp present
      unfold increaseStatsOfMenagerieLoop
      split
      · exact ih legal small typs later
      · obtain ⟨emo, looked⟩ := getEmoMutById_succeeds_iff.mpr here
        obtain ⟨base, resolved⟩ := find_succeeds (legal emo (sound_getEmoMutById.result looked)).base
        refine succeeds_bind_iff.mpr ⟨emo, looked, succeeds_bind_iff.mpr ⟨base, resolved, ?_⟩⟩
        split
        · exact ih legal small typs later
        · obtain ⟨after, changed⟩ :=
            ((targeted_addAttackAndHealthToEmo env attack health).succeeds_iff small).mpr
              here
          refine succeeds_bind_iff.mpr ⟨after, changed, ?_⟩
          have update := (addAttackAndHealthToEmo_writes changed).update
          split
          · exact succeeds_pure _
          · apply ih ((sound_addAttackAndHealthToEmo legal).result changed)
            · rwa [update.size_eq.1]
            · rwa [update.emoIds_eq]

theorem increaseStatsOfMenagerie_succeeds_iff {rng : env.sampler.Rng}
    {actionEmoId typCount attack health : Nat} :
    Succeeds (increaseStatsOfMenagerie env rng actionEmoId typCount attack health state) ↔
      actionEmoId ∈ state.board.emoIds := by
  rw [increaseStatsOfMenagerie, ← getEmoById_succeeds_iff]
  dsimp only
  rw [succeeds_bind_iff]
  refine exists_congr fun actionEmo => and_iff_left ?_
  have looped := increaseStatsOfMenagerieLoop_succeeds legal small actionEmoId typCount
    (doubleAttackAndHealthIf actionEmo.attributes.isTriple attack health).1
    (doubleAttackAndHealthIf actionEmo.attributes.isTriple attack health).2 []
    (env.sampler.shuffleAll_perm rng state.board.emoIds).subset
  obtain ⟨after, looped⟩ := looped
  exact succeeds_bind_iff.mpr ⟨after, looped, succeeds_pure _⟩

end Changes

/-! ## Adding emos -/

section Additions

variable {env : Env} {emoPointer : EmoPointer} {state : ShopState}
variable (bases : LegalBases env.emoBases) (legal : LegalBoard env.emoBases state.board)

theorem countEmos_of_small {board : ShopBoard} (small : board.length ≤ boardEmoMaxCount) :
    board.countEmos = board.length :=
  Nat.mod_eq_of_lt (Nat.lt_of_le_of_lt small (by decide : boardEmoMaxCount < 256))

include legal

theorem addEmoWithBoardEmo_succeeds_iff {newBoardEmo : ShopBoardEmo} {emoIndex : Nat}
    (new : LegalEmo env.emoBases newBoardEmo) (room : state.board.length < boardEmoMaxCount) :
    Succeeds (addEmoWithBoardEmo env newBoardEmo emoIndex state) ↔
      emoIndex ≤ state.board.length := by
  have count := countEmos_of_small (Nat.le_of_lt room)
  simp only [addEmoWithBoardEmo, callEmoAdditionAbilities, succeeds_bind_iff, count,
    ensure_eq_ok_iff, ShopState.addLog_board, Result.bind_eq_ok_iff]
  constructor
  · rintro ⟨_, _, _, bound, _⟩
    exact bound
  · intro bound
    have inserted : LegalBoard env.emoBases (state.board.insertIdx emoIndex newBoardEmo) :=
      legal.insertIdx new
    have present : newBoardEmo.id ∈
        ShopBoard.emoIds (state.board.insertIdx emoIndex newBoardEmo) :=
      List.mem_map_of_mem ((List.mem_insertIdx bound).mpr (.inl rfl))
    obtain ⟨newEmo, looked⟩ := getEmoById_succeeds_iff.mpr present
    obtain ⟨base, resolved⟩ :=
      find_succeeds (inserted newEmo (ShopBoard.getEmoById_found looked).1).base
    exact ⟨(), room, (), bound, _, ⟨newEmo, looked, base, resolved, rfl⟩, succeeds_pure _⟩

include bases

theorem addEmoCalls_succeeds_iff {mtcEmoIds : List Nat} {baseId emoIndex : Nat}
    {isTriple : Bool} (resolves : Resolves env.emoBases baseId)
    (room : state.board.length < boardEmoMaxCount) :
    Succeeds (addEmoCalls env mtcEmoIds baseId isTriple emoIndex state) ↔
      emoIndex ≤ state.board.length := by
  obtain ⟨base, found⟩ := resolves
  let generated : ShopState := { state with generatedIds := state.generatedIds + 1 }
  have added := @addEmoWithBoardEmo_succeeds_iff env generated legal
    (.newWithBase state.generatedIds mtcEmoIds base isTriple) emoIndex
    ((bases _ _ found).newWithBase _ _ _) room
  rw [addEmoCalls, succeeds_bind_iff, ← added]
  constructor
  · rintro ⟨other, resolved, performed⟩
    rw [Emo.Bases.find_eq_ok_iff, found] at resolved
    cases resolved
    exact performed
  · exact fun performed => ⟨base, Emo.Bases.find_eq_ok_iff.mpr found, performed⟩

variable (small : state.board.length ≤ boardEmoMaxCount)
include small

theorem setEmo_succeeds_iff {isTripleAction : Bool} {baseId : Nat}
    (resolves : Resolves env.emoBases baseId) :
    Succeeds (setEmo env emoPointer isTripleAction baseId state) ↔
      (state.board.length < boardEmoMaxCount → Placed state.board emoPointer) := by
  unfold setEmo
  rw [countEmos_of_small small]
  split
  · rename_i room
    have added_iff (index : Nat) : Succeeds (addEmoCalls env [] baseId isTripleAction index state
        >>= fun result => pure (result.1 ++ [.setEmoReturn state.gottenCoin], result.2) :
        Result (Calls env)) ↔ index ≤ state.board.length := by
      rw [← @addEmoCalls_succeeds_iff env state bases legal [] baseId index isTripleAction resolves
        room, succeeds_bind_iff]
      exact exists_congr fun _ => and_iff_left (succeeds_pure _)
    rw [succeeds_bind_iff, imp_iff_right room]
    apply (exists_congr fun index => and_congr_right fun _ => added_iff index).trans
    cases emoPointer with
    | onBoard emoId =>
        rw [Placed, ← getEmoIndexById_succeeds_iff small, ← succeeds_map_iff]
        refine exists_congr fun index => and_iff_left_of_imp fun found => ?_
        obtain ⟨left, looked, rfl⟩ := Result.map_eq_ok_iff.mp found
        exact getEmoIndexById_lt looked
    | removed emo prevEmoIndex => simp [EmoPointer.getRightEmoIndex, Placed]
  · rename_i full
    exact iff_of_true (succeeds_pure _) fun room => absurd room full

omit legal bases small in
theorem sumU16_succeeds_iff {values : List Nat} :
    Succeeds (sumU16 values) ↔ values.sum ≤ u16Max := by
  simp [Succeeds]

omit legal bases small in
theorem buildTripleEmo_succeeds_iff (generatedIds : Nat) {targetBaseId : Nat} {base : Base}
    {sources : List ShopBoardEmo} (found : env.emoBases targetBaseId = some base) :
    Succeeds (buildTripleEmo env generatedIds sources targetBaseId) ↔ SumsFit base sources := by
  have nums_iff : Succeeds (buildTripleEmoNums base sources) ↔ SumsFit base sources := by
    rw [SumsFit, ← sumU16_succeeds_iff, ← sumU16_succeeds_iff, buildTripleEmoNums,
      succeeds_bind_iff]
    simp only [succeeds_bind_iff, succeeds_pure, and_true]
    exact exists_and_right
  rw [buildTripleEmo, succeeds_bind_iff, ← nums_iff]
  constructor
  · rintro ⟨other, resolved, performed⟩
    rw [Emo.Bases.find_eq_ok_iff, found] at resolved
    cases resolved
    obtain ⟨nums, computed, _⟩ := succeeds_bind_iff.mp performed
    exact ⟨nums, computed⟩
  · rintro ⟨nums, computed⟩
    exact ⟨base, Emo.Bases.find_eq_ok_iff.mpr found,
      succeeds_bind_iff.mpr ⟨nums, computed, succeeds_pure _⟩⟩

/-- A merge only fails by an overflow of its numbers. -/
theorem processTriple_succeeds_iff_of_found {newEmoId newEmoIndex : Nat} {target : ShopBoardEmo}
    {base : Base} (looked : state.board.getEmoAndIndexById newEmoId = .ok (target, newEmoIndex))
    (found : env.emoBases target.baseId = some base) :
    Succeeds (processTriple env newEmoId state) ↔
      (3 ≤ (state.board.filter (isSameBaseNotTriple target.baseId)).length →
        SumsFit base (state.board.filter (isSameBaseNotTriple target.baseId))) := by
  have fits : boardEmoMaxCount ≤ u8Max := by decide
  constructor
  · rintro ⟨⟨calls, after⟩, processed⟩ enough
    simp only [processTriple, ShopBoard.emosWithIndexes, Result.bind_eq_ok_iff, zipU8_eq_ok_iff,
      looked, Except.ok.injEq] at processed
    obtain ⟨_, rfl, _, ⟨_, rfl⟩, processed⟩ := processed
    rw [Positions.length_filter_zipIdx, if_pos enough] at processed
    simp only [removeTripleEmos_filter, Result.bind_eq_ok_iff, Except.ok.injEq] at processed
    obtain ⟨_, rfl, triple, built, _⟩ := processed
    exact (buildTripleEmo_succeeds_iff state.generatedIds found).mp ⟨triple, built⟩
  · intro sums
    refine succeeds_bind_iff.mpr ⟨_, looked, succeeds_bind_iff.mpr
      ⟨_, zipU8_eq_ok_iff.mpr ⟨Nat.le_trans small fits, rfl⟩, ?_⟩⟩
    dsimp only
    rw [Positions.length_filter_zipIdx]
    split
    · rename_i enough
      obtain ⟨standing, _⟩ := ShopBoard.getEmoAndIndexById_found looked
      have inside := (List.getElem?_eq_some_iff.mp standing).1
      have shorter := List.length_eq_length_filter_add (l := state.board)
        (isSameBaseNotTriple target.baseId)
      have room : (state.board.filter fun emo =>
          !isSameBaseNotTriple target.baseId emo).length < boardEmoMaxCount := by omega
      obtain ⟨triple, built⟩ :=
        (buildTripleEmo_succeeds_iff state.generatedIds found).mpr (sums enough)
      have new := (sound_buildTripleEmo bases legal.filter ⟨base, found⟩).result built
      have added (removedIndexes : List Nat) {tripleIndex : Nat}
          (placed : tripleIndex ≤ (state.board.filter fun emo =>
            !isSameBaseNotTriple target.baseId emo).length) :
          Succeeds (addEmoWithBoardEmo env triple tripleIndex
            (ShopState.addLog env { state with
                board := state.board.filter fun emo => !isSameBaseNotTriple target.baseId emo
                generatedIds := state.generatedIds + 1 } (.triple removedIndexes))) := by
        refine (addEmoWithBoardEmo_succeeds_iff ?_ new ?_).mpr ?_ <;>
          rw [ShopState.addLog_board]
        · exact legal.filter
        · exact room
        · exact placed
      simp only [removeTripleEmos_filter, succeeds_bind_iff, Except.ok.injEq, okOr_eq_ok_iff,
        checkedSub_eq_some_iff]
      obtain ⟨result, performed⟩ := added _ (Positions.sub_length_filter_lt_le (Nat.le_of_lt inside))
      exact ⟨_, rfl, triple, built, _, ⟨Positions.length_filter_lt_le, rfl⟩, result, performed,
        succeeds_pure _⟩
    · exact succeeds_pure _

theorem processTriple_succeeds_iff {newEmoId : Nat} :
    Succeeds (processTriple env newEmoId state) ↔
      Holds env (.processTriple newEmoId) state.board := by
  rw [Holds, ← getEmoAndIndexById_succeeds_iff small]
  constructor
  · intro processed
    obtain ⟨⟨target, newEmoIndex⟩, looked, _⟩ := succeeds_bind_iff.mp processed
    refine ⟨⟨_, looked⟩, fun other otherIndex base again enough found => ?_⟩
    exact (processTriple_succeeds_iff_of_found bases legal small again found).mp processed enough
  · rintro ⟨⟨⟨target, newEmoIndex⟩, looked⟩, sums⟩
    have member := sound_getEmoAndIndexById.result looked
    obtain ⟨base, found⟩ := (legal target member).base
    exact (processTriple_succeeds_iff_of_found bases legal small looked found).mpr
      fun enough => sums target newEmoIndex base looked enough found

/-! ## Tasks -/

omit bases in
theorem increaseStatsByEmoCount_succeeds_iff {isTripleAction : Bool} {target : Target}
    {countCondition : TypOptAndIsTripleOpt} {attack health : Nat} :
    Succeeds (increaseStatsByEmoCount env emoPointer isTripleAction target countCondition attack
      health state) ↔ TargetHolds state.board emoPointer target := by
  obtain ⟨count, counted⟩ := @countEmosByTypAndTriple_succeeds _ emoPointer _ legal small
    countCondition
  unfold increaseStatsByEmoCount
  simp only [counted]
  exact addAttackAndHealthToEmos_succeeds_iff legal small

omit bases in
theorem increaseStatsByGrade_succeeds_iff {isTripleAction : Bool} {target : Target}
    {attack health : Nat} (pointer : LegalPointer env.emoBases emoPointer) :
    Succeeds (increaseStatsByGrade env emoPointer isTripleAction target attack health state) ↔
      Standing state.board emoPointer ∧ TargetHolds state.board emoPointer target := by
  rw [← getEmo_succeeds_iff, increaseStatsByGrade]
  dsimp only
  rw [succeeds_bind_iff]
  constructor
  · rintro ⟨actionEmo, looked, performed⟩
    obtain ⟨base, _, performed⟩ := succeeds_bind_iff.mp performed
    exact ⟨⟨actionEmo, looked⟩, (addAttackAndHealthToEmos_succeeds_iff legal small).mp performed⟩
  · rintro ⟨⟨actionEmo, looked⟩, target⟩
    obtain ⟨base, resolved⟩ := find_succeeds ((sound_getEmo legal pointer).result looked).base
    exact ⟨actionEmo, looked, succeeds_bind_iff.mpr
      ⟨base, resolved, (addAttackAndHealthToEmos_succeeds_iff legal small).mpr target⟩⟩

theorem callAbilityAction_succeeds_iff {action : NormalAction} {isTripleAction : Bool}
    (acts : LegalAction env.emoBases action) (pointer : LegalPointer env.emoBases emoPointer) :
    Succeeds (callAbilityAction env action emoPointer isTripleAction state) ↔
      ActionHolds state.board emoPointer action := by
  cases action with
  | setEmo baseId =>
      rw [LegalAction] at acts
      exact setEmo_succeeds_iff bases legal small acts
  | increaseStats target attack health =>
      exact succeeds_map_iff.trans (addAttackAndHealthToEmos_succeeds_iff legal small)
  | increaseStatsByEmoCount target countCondition attack health =>
      exact succeeds_map_iff.trans (increaseStatsByEmoCount_succeeds_iff legal small)
  | increaseStatsByGrade target attack health =>
      exact succeeds_map_iff.trans (increaseStatsByGrade_succeeds_iff legal small pointer)
  | increaseStatsOfAdjacentMenagerie attack health =>
      exact succeeds_map_iff.trans (increaseStatsOfAdjacentMenagerie_succeeds_iff legal small)
  | addAbility target ability =>
      exact succeeds_map_iff.trans (addAbility_succeeds_iff legal small)
  | getCoin coin => exact iff_of_true (succeeds_pure _) trivial
  | getCoinByEmoCountDiv countCondition divisor =>
      rw [LegalAction] at acts
      obtain ⟨count, counted⟩ := @countEmosByTypAndTriple_succeeds _ emoPointer _ legal small
        countCondition
      refine iff_of_true (succeeds_map_iff.mpr (succeeds_bind_iff.mpr ⟨count, counted, ?_⟩)) trivial
      rw [ensure, if_pos acts]
      exact succeeds_pure _

omit bases legal small in
theorem callAbilityActionAsAlly_succeeds_iff {action : PeriAsAllyAction} {oneselfEmoId : Nat} :
    Succeeds (callAbilityActionAsAlly env action oneselfEmoId emoPointer state) ↔
      oneselfEmoId ∈ state.board.emoIds ∧
        (action = .custom .triggerSetActions → Standing state.board emoPointer) := by
  rw [callAbilityActionAsAlly, succeeds_bind_iff, ← getEmoById_succeeds_iff, Succeeds,
    ← exists_and_right]
  refine exists_congr fun oneselfEmo => and_congr_right fun _ => ?_
  cases action with
  | oneselfTripleNormal normalAction =>
      refine iff_of_true (succeeds_pure _) fun custom => ?_
      cases custom
  | custom customAction =>
      cases customAction
      rw [imp_iff_right rfl, ← getEmo_succeeds_iff]
      exact succeeds_bind_iff.trans (exists_congr fun _ => and_iff_left (succeeds_pure _))

omit bases in
theorem callPreAbilities_succeeds_iff {rng : env.sampler.Rng} {abilities : List (Nat × Pre)} :
    Succeeds (callPreAbilities env rng abilities state) ↔
      Holds env (.callPreAbilities rng abilities) state.board := by
  match abilities with
  | [] => exact iff_of_true (succeeds_pure _) trivial
  | (actionEmoId, .normal action) :: rest => exact iff_of_true (succeeds_pure _) trivial
  | (actionEmoId, .random (.increaseStatsOfMenagerie typCount attack health)) :: rest =>
      rw [Holds, ← @increaseStatsOfMenagerie_succeeds_iff env state legal small rng actionEmoId
        typCount attack health]
      exact succeeds_bind_iff.trans (exists_congr fun _ => and_iff_left (succeeds_pure _))

/-- On legal input a task succeeds exactly when it finds its emos. -/
theorem perform_succeeds_iff {task : Task env.sampler} (acts : LegalTask env.emoBases task) :
    Succeeds (perform env task state) ↔ Holds env task state.board := by
  cases task with
  | callPreAbilities rng abilities => exact callPreAbilities_succeeds_iff legal small
  | callAbilityActionAsOneself action actionEmoPointer =>
      rw [Holds, ← getEmo_succeeds_iff]
      exact succeeds_bind_iff.trans (exists_congr fun _ => and_iff_left (succeeds_pure _))
  | callAbilityActionAsAlly action oneselfEmoId allyEmoPointer =>
      exact callAbilityActionAsAlly_succeeds_iff
  | callAbilityAction action actionEmoPointer isTripleAction =>
      exact callAbilityAction_succeeds_iff bases legal small acts.1 acts.2
  | callBoardAdditionAbilities newEmoId newEmoTyp isNewEmoTriple =>
      exact iff_of_true (succeeds_pure _) trivial
  | processTriple newEmoId => exact processTriple_succeeds_iff bases legal small
  | setEmoReturn gottenCoin => exact iff_of_true (succeeds_pure _) trivial
  | processTripleReturn gottenCoin => exact iff_of_true (succeeds_pure _) trivial

end Additions

/-! ## Actions -/

variable {env : Env} {state : ShopState}

/-- Every task of the cascade finds its emos when it is performed. -/
def Undisturbed (env : Env) (calls : Calls env) : Prop :=
  ∀ task middle, PerformedIn (perform env) ⟨calls.1, calls.2⟩ task middle →
    Holds env task middle.board

theorem runCalls_succeeds_iff {calls : Calls env} (bases : LegalBases env.emoBases)
    (legal : LegalCalls env calls) (small : calls.2.board.length ≤ boardEmoMaxCount) :
    (∃ fuel after, runCalls env fuel calls = pure after) ↔ Undisturbed env calls := by
  have start : LegalConfig env ⟨calls.1, calls.2⟩ := ⟨legal.1, legal.2⟩
  have ends := (perform_descending env).terminates calls.1 small
  have returns_iff : (∃ fuel after, runCalls env fuel calls = pure after) ↔
      ∃ after, Returns (perform env) ⟨calls.1, calls.2⟩ after := by
    rw [exists_comm]
    exact exists_congr fun after => exists_run_ok_iff
  rw [returns_iff, exists_returns_iff ends]
  refine forall_congr' fun task => ?_
  rw [forall_comm]
  refine forall_congr' fun middle => ?_
  rw [PerformedIn, forall_exists_index]
  refine forall_congr' fun rest => forall_congr' fun reached => ?_
  have holds := start.reaches bases reached
  exact perform_succeeds_iff bases holds.board (Reaches.grown small reached).1
    (holds.tasks task List.mem_cons_self)

theorem of_runCalls_succeeds_iff {result : Result (Calls env)}
    (bases : LegalBases env.emoBases) (sound : Sound result (LegalCalls env))
    (small : ∀ calls, result = .ok calls → calls.2.board.length ≤ boardEmoMaxCount)
    (succeeds : Succeeds result) :
    (∃ fuel after, (Fueled.of result >>= runCalls env fuel) = pure after) ↔
      ∀ calls, result = .ok calls → Undisturbed env calls := by
  obtain ⟨calls, called⟩ := succeeds
  have runs_iff := runCalls_succeeds_iff bases (sound.result called) (small calls called)
  simp only [called, Except.ok.injEq, forall_eq', Fueled.bind_eq_pure_iff, Fueled.of_eq_pure_iff,
    exists_eq_left']
  exact runs_iff

theorem sellEmoCalls_succeeds {emoIndex : Nat} (small : state.board.length ≤ boardEmoMaxCount)
    (inside : emoIndex < state.board.length) : Succeeds (sellEmoCalls env emoIndex state) := by
  simp only [sellEmoCalls, succeeds_bind_iff, ensure_eq_ok_iff, okOr_eq_ok_iff,
    countEmos_of_small small]
  exact ⟨(), inside, _, List.getElem?_eq_getElem inside, succeeds_pure _⟩

theorem sellEmoCalls_length_le {emoIndex : Nat} {calls : Calls env}
    (sold : sellEmoCalls env emoIndex state = .ok calls) :
    calls.2.board.length ≤ state.board.length := by
  rw [(sellEmoCalls_removal sold).1]
  exact List.length_eraseIdx_le _ _

/-- A shop action on a legal board returns exactly when no triple takes away an
emo that its cascade still speaks of. -/
theorem shop_succeeds_iff (bases : LegalBases env.emoBases)
    (legal : LegalBoard env.emoBases state.board)
    (small : state.board.length ≤ boardEmoMaxCount) :
    (∀ seed, (∃ fuel after, startShop env fuel seed state = pure after) ↔
      Undisturbed env (startShopCalls env seed state)) ∧
    (∀ emoIndex < state.board.length,
      ((∃ fuel after, sellEmo env fuel emoIndex state = pure after) ↔
        ∀ calls, sellEmoCalls env emoIndex state = .ok calls → Undisturbed env calls)) ∧
    ∀ mtcEmoIds baseId isTriple, ∀ emoIndex ≤ state.board.length,
      Resolves env.emoBases baseId → state.board.length < boardEmoMaxCount →
      ((∃ fuel after, addEmo env fuel mtcEmoIds baseId isTriple emoIndex state = pure after) ↔
        ∀ calls, addEmoCalls env mtcEmoIds baseId isTriple emoIndex state = .ok calls →
          Undisturbed env calls) := by
  refine ⟨fun seed => ?_, fun emoIndex inside => ?_,
    fun mtcEmoIds baseId isTriple emoIndex bound resolves room => ?_⟩
  · have started := legalConfig_startShopCalls seed legal
    exact runCalls_succeeds_iff bases ⟨started.tasks, started.board⟩ small
  · apply of_runCalls_succeeds_iff bases (sound_sellEmoCalls legal)
    · exact fun calls sold => Nat.le_trans (sellEmoCalls_length_le sold) small
    · exact sellEmoCalls_succeeds small inside
  · apply of_runCalls_succeeds_iff bases (sound_addEmoCalls bases legal resolves)
    · rintro ⟨calls, after⟩ added
      obtain ⟨base, _, addition, _⟩ := addEmoCalls_addition added
      exact (addition.sizes small).2.1
    · exact (addEmoCalls_succeeds_iff bases legal resolves room).mpr bound

/-- An emo whose pre ability sets a copy of it. -/
def preCopyBase : Base where
  id := 0
  typ := .food
  grade := 1
  attack := 1
  health := 1
  abilities := [.shop (.pre (.normal (.setEmo 0)))]

def preCopyEnv : Env where
  emoBases id := if id = 0 then some preCopyBase else none
  sampler := .first

/-- Two copies at the beginning of a turn. -/
def preCopyState : ShopState where
  board := [.newWithBase 0 [1] preCopyBase false, .newWithBase 1 [2] preCopyBase false]
  logs := []
  gottenCoin := 0
  generatedIds := 2

theorem legalBases_preCopyEnv : LegalBases preCopyEnv.emoBases := by
  intro id base found
  simp only [preCopyEnv] at found
  split at found <;> cases found
  refine ⟨⟨preCopyBase, rfl⟩, fun ability listed => ?_⟩
  rw [List.mem_singleton.mp listed]
  simp only [LegalAbility, LegalShop, LegalPre, LegalAction]
  exact ⟨preCopyBase, rfl⟩

theorem legalBoard_preCopyState : LegalBoard preCopyEnv.emoBases preCopyState.board := by
  have copy (id : Nat) (mtcEmoIds : List Nat) :
      LegalEmo preCopyEnv.emoBases (.newWithBase id mtcEmoIds preCopyBase false) :=
    (legalBases_preCopyEnv 0 preCopyBase rfl).newWithBase id mtcEmoIds false
  intro emo member
  rcases List.mem_pair.mp member with rfl | rfl
  · exact copy 0 [1]
  · exact copy 1 [2]

end EmojiBattler.Mtc.Shop
