import EmojiBattler.Library.Numbering
import EmojiBattler.Library.Simulation
import EmojiBattler.Shop.Identity
import EmojiBattler.Shop.Termination

/-! # Shop boards with other ids

The functions of a shop compare ids and do nothing else with them.  With other
ids on the board, and with or without logs, they do the same. -/

namespace EmojiBattler.Mtc

namespace Shop

open EmojiBattler.Emo Sampling Simulation Numbering
open EmojiBattler.Emo.Ability (Destination Target TypOptAndIsTripleOpt)
open EmojiBattler.Emo.Ability.Shop (NormalAction Peri PeriAsAllyAction Pre)

def ShopBoardEmo.renamed (name : Nat → Nat) (emo : ShopBoardEmo) : ShopBoardEmo :=
  { emo with id := name emo.id }

def ShopBoard.renamed (name : Nat → Nat) (board : ShopBoard) : ShopBoard :=
  board.map (ShopBoardEmo.renamed name)

def EmoPointer.renamed (name : Nat → Nat) : EmoPointer → EmoPointer
  | .onBoard emoId => .onBoard (name emoId)
  | .removed emo prevEmoIndex => .removed (emo.renamed name) prevEmoIndex

def Task.renamed {sampler : Sampler} (name : Nat → Nat) : Task sampler → Task sampler
  | .callPreAbilities rng abilities =>
      .callPreAbilities rng (abilities.map fun (emoId, pre) => (name emoId, pre))
  | .callAbilityActionAsOneself action actionEmoPointer =>
      .callAbilityActionAsOneself action (actionEmoPointer.renamed name)
  | .callAbilityActionAsAlly action oneselfEmoId allyEmoPointer =>
      .callAbilityActionAsAlly action (name oneselfEmoId) (allyEmoPointer.renamed name)
  | .callAbilityAction action actionEmoPointer isTripleAction =>
      .callAbilityAction action (actionEmoPointer.renamed name) isTripleAction
  | .callBoardAdditionAbilities newEmoId newEmoTyp isNewEmoTriple =>
      .callBoardAdditionAbilities (name newEmoId) newEmoTyp isNewEmoTriple
  | .processTriple newEmoId => .processTriple (name newEmoId)
  | .setEmoReturn gottenCoin => .setEmoReturn gottenCoin
  | .processTripleReturn gottenCoin => .processTripleReturn gottenCoin

/-- An injective map of ids that takes the ids which a generator returns from
`first` calls on, up to the limit, to those it returns from `second` calls
on. -/
structure Naming where
  name : Nat → Nat
  injective : Function.Injective name
  first : Nat
  second : Nat
  limit : Nat
  next : ∀ count, first + count < limit →
    name (generateShopBoardEmoId (first + count)) = generateShopBoardEmoId (second + count)

/-- The second state is the first one under other ids.  Its logs may be any. -/
structure Renamed (naming : Naming) (state image : ShopState) : Prop where
  board : image.board = state.board.renamed naming.name
  gottenCoin : image.gottenCoin = state.gottenCoin
  generatedIds : ∃ count, state.generatedIds = naming.first + count ∧
    image.generatedIds = naming.second + count

variable {env : Env} {isViewLogsEnabled : Bool} {naming : Naming}

/-! ## States -/

theorem Renamed.addLog {state image : ShopState} (renamed : Renamed naming state image)
    (log imageLog : BoardLog) :
    Renamed naming (state.addLog env log)
      (image.addLog (env.withLogs isViewLogsEnabled) imageLog) where
  board := by simpa using renamed.board
  gottenCoin := by simpa using renamed.gottenCoin
  generatedIds := by simpa using renamed.generatedIds

theorem Renamed.setEmoAt {state image : ShopState} (renamed : Renamed naming state image)
    (index : Nat) (emo : ShopBoardEmo) :
    Renamed naming (state.setEmoAt index emo)
      (image.setEmoAt index (emo.renamed naming.name)) where
  board := by
    simp only [ShopState.setEmoAt, renamed.board, ShopBoard.renamed, List.map_set]
  gottenCoin := renamed.gottenCoin
  generatedIds := renamed.generatedIds

/-! ## Lookups -/

section Lookups

variable {name : Nat → Nat}

@[simp] theorem renamed_length (board : ShopBoard) :
    (board.renamed name).length = board.length :=
  List.length_map _

@[simp] theorem renamed_countEmos (board : ShopBoard) :
    (board.renamed name).countEmos = board.countEmos := by
  rw [ShopBoard.countEmos, renamed_length, ShopBoard.countEmos]

@[simp] theorem renamed_getElem? (board : ShopBoard) (index : Nat) :
    (board.renamed name)[index]? = board[index]?.map (ShopBoardEmo.renamed name) :=
  List.getElem?_map

@[simp] theorem renamed_intoBoard (board : ShopBoard) :
    (board.renamed name).intoBoard = board.intoBoard := by
  rw [ShopBoard.intoBoard, ShopBoard.renamed, List.map_map]
  rfl

theorem renamed_emoIds (board : ShopBoard) :
    (board.renamed name).emoIds = board.emoIds.map name := by
  rw [ShopBoard.emoIds, ShopBoard.renamed, ShopBoard.emoIds, List.map_map, List.map_map]
  rfl

theorem renamed_comp (injective : Function.Injective name) (emoId : Nat) :
    (fun emo : ShopBoardEmo => decide (emo.id = name emoId)) ∘ ShopBoardEmo.renamed name =
      fun emo => decide (emo.id = emoId) := by
  funext emo
  exact decide_eq_decide.mpr injective.eq_iff

theorem renamed_find? (injective : Function.Injective name) (board : ShopBoard) (emoId : Nat) :
    (board.renamed name).find? (fun emo => emo.id = name emoId) =
      (board.find? fun emo => emo.id = emoId).map (ShopBoardEmo.renamed name) := by
  rw [ShopBoard.renamed, List.find?_map, renamed_comp injective]

theorem renamed_findZipU8 (injective : Function.Injective name) (board : ShopBoard)
    (emoId : Nat) :
    Maps (Option.map (Prod.map (ShopBoardEmo.renamed name) id))
      (findZipU8 (fun emo => emo.id = emoId) board)
      (findZipU8 (fun emo => emo.id = name emoId) (board.renamed name)) := by
  intro found performed
  have located : (board.renamed name).findIdx (fun emo => emo.id = name emoId) =
      board.findIdx fun emo => emo.id = emoId := by
    rw [ShopBoard.renamed, List.findIdx_map, renamed_comp injective]
  unfold findZipU8 at performed ⊢
  rw [located, renamed_length]
  split at performed
  · cases performed
    rename_i bound
    rw [if_pos bound, ShopBoard.renamed, List.zipIdx_map, List.find?_map]
    refine ⟨_, rfl, congrArg _ (congrArg (List.find? · _) ?_)⟩
    exact funext fun entry => congrFun (renamed_comp injective emoId) entry.1
  · cases performed

theorem getEmoById_maps (injective : Function.Injective name) (board : ShopBoard) (emoId : Nat) :
    Maps (ShopBoardEmo.renamed name) (board.getEmoById emoId)
      ((board.renamed name).getEmoById (name emoId)) := by
  rw [ShopBoard.getEmoById, ShopBoard.getEmoById, renamed_find? injective]
  exact maps_okOr

theorem getEmoMutById_maps (injective : Function.Injective name) (board : ShopBoard)
    (emoId : Nat) :
    Maps (ShopBoardEmo.renamed name) (board.getEmoMutById emoId)
      ((board.renamed name).getEmoMutById (name emoId)) := by
  rw [ShopBoard.getEmoMutById, ShopBoard.getEmoMutById, renamed_find? injective]
  exact maps_okOr

theorem getEmoAndIndexById_maps (injective : Function.Injective name) (board : ShopBoard)
    (emoId : Nat) :
    Maps (Prod.map (ShopBoardEmo.renamed name) id) (board.getEmoAndIndexById emoId)
      ((board.renamed name).getEmoAndIndexById (name emoId)) :=
  (renamed_findZipU8 injective board emoId).bind fun _ => maps_okOr

theorem getEmoMutAndIndexById_maps (injective : Function.Injective name) (board : ShopBoard)
    (emoId : Nat) :
    Maps (Prod.map (ShopBoardEmo.renamed name) id) (board.getEmoMutAndIndexById emoId)
      ((board.renamed name).getEmoMutAndIndexById (name emoId)) :=
  (renamed_findZipU8 injective board emoId).bind fun _ => maps_okOr

theorem getEmoIndexById_maps (injective : Function.Injective name) (board : ShopBoard)
    (emoId : Nat) :
    Maps id (board.getEmoIndexById emoId) ((board.renamed name).getEmoIndexById (name emoId)) := by
  refine (renamed_findZipU8 injective board emoId).bind fun found => ?_
  cases found with
  | none => exact Simulates.error
  | some found => exact Maps.pure id found.2

theorem getEmoIdByIndex_maps (board : ShopBoard) (emoIndex : Nat) :
    Maps name (board.getEmoIdByIndex emoIndex) ((board.renamed name).getEmoIdByIndex emoIndex) := by
  rw [ShopBoard.getEmoIdByIndex, ShopBoard.getEmoIdByIndex, renamed_getElem?, Option.map_map]
  cases board[emoIndex]? with
  | none => exact Simulates.error
  | some emo => exact Maps.pure name emo.id

theorem getEmoIdByIndex_toOption (board : ShopBoard) (emoIndex : Nat) :
    ((board.renamed name).getEmoIdByIndex emoIndex).toOption =
      (board.getEmoIdByIndex emoIndex).toOption.map name := by
  rw [ShopBoard.getEmoIdByIndex, ShopBoard.getEmoIdByIndex, renamed_getElem?, Option.map_map]
  cases board[emoIndex]? <;> rfl

theorem EmoPointer.getEmo_maps (injective : Function.Injective name) (board : ShopBoard)
    (pointer : EmoPointer) :
    Maps (ShopBoardEmo.renamed name) (pointer.getEmo board)
      ((pointer.renamed name).getEmo (board.renamed name)) := by
  cases pointer with
  | onBoard emoId => exact getEmoById_maps injective board emoId
  | removed emo prevEmoIndex => exact Maps.pure _ emo

theorem EmoPointer.renamed_getEmoId (pointer : EmoPointer) :
    (pointer.renamed name).getEmoId = name pointer.getEmoId := by
  cases pointer <;> rfl

theorem EmoPointer.getEmoIndex_maps (injective : Function.Injective name) (board : ShopBoard)
    (pointer : EmoPointer) :
    Maps id (pointer.getEmoIndex board) ((pointer.renamed name).getEmoIndex (board.renamed name)) := by
  cases pointer with
  | onBoard emoId => exact getEmoIndexById_maps injective board emoId
  | removed emo prevEmoIndex => exact Maps.pure id prevEmoIndex

theorem EmoPointer.getRightEmoIndex_maps (injective : Function.Injective name)
    (board : ShopBoard) (pointer : EmoPointer) :
    Maps id (pointer.getRightEmoIndex board)
      ((pointer.renamed name).getRightEmoIndex (board.renamed name)) := by
  cases pointer with
  | onBoard emoId =>
      exact (getEmoIndexById_maps injective board emoId).map fun _ _ same => by rw [same]; rfl
  | removed emo prevEmoIndex => exact Maps.pure id prevEmoIndex

end Lookups

/-! ## Targets -/

section Targets

variable {name : Nat → Nat}

theorem countEmosByTypAndTriple_renamed (injective : Function.Injective name)
    (board : ShopBoard) (pointer : EmoPointer) (typAndTriple : TypOptAndIsTripleOpt) :
    countEmosByTypAndTriple (env.withLogs isViewLogsEnabled) (board.renamed name)
        (pointer.renamed name) typAndTriple =
      countEmosByTypAndTriple env board pointer typAndTriple := by
  have same : ∀ count emo,
      countEmoByTypAndTriple (env.withLogs isViewLogsEnabled) (name pointer.getEmoId) typAndTriple
          count (emo.renamed name) =
        countEmoByTypAndTriple env pointer.getEmoId typAndTriple count emo := by
    intro count emo
    simp only [countEmoByTypAndTriple, ShopBoardEmo.renamed, injective.eq_iff]
    rfl
  simp only [countEmosByTypAndTriple, ShopBoard.renamed, List.foldlM_map, same,
    EmoPointer.renamed_getEmoId]

theorem getRightEmoId_maps (injective : Function.Injective name) (board : ShopBoard)
    (pointer : EmoPointer) :
    Maps (Option.map name) (getRightEmoId board pointer)
      (getRightEmoId (board.renamed name) (pointer.renamed name)) := by
  apply (pointer.getRightEmoIndex_maps injective board).bind
  intro index
  rw [id, getEmoIdByIndex_toOption]
  exact Maps.pure (Option.map name) _

theorem getLeftEmoId_maps (injective : Function.Injective name) (board : ShopBoard)
    (pointer : EmoPointer) :
    Maps (Option.map name) (getLeftEmoId board pointer)
      (getLeftEmoId (board.renamed name) (pointer.renamed name)) := by
  apply (pointer.getEmoIndex_maps injective board).bind
  intro index
  rw [id]
  cases checkedSub index 1 with
  | none => exact Maps.pure (Option.map name) none
  | some left =>
      exact (getEmoIdByIndex_maps board left).map fun _ _ same => congrArg some same

theorem getEmoIdsByDestination_maps (injective : Function.Injective name) (board : ShopBoard)
    (pointer : EmoPointer) (destination : Destination) :
    Maps (List.map name) (getEmoIdsByDestination board pointer destination)
      (getEmoIdsByDestination (board.renamed name) (pointer.renamed name) destination) := by
  have toList : ∀ (value image : Option Nat), image = value.map name →
      image.toList = value.toList.map name := by
    rintro (_ | value) image rfl <;> rfl
  cases destination with
  | right => exact (getRightEmoId_maps injective board pointer).map toList
  | left => exact (getLeftEmoId_maps injective board pointer).map toList
  | all =>
      unfold getEmoIdsByDestination
      rw [renamed_emoIds, EmoPointer.renamed_getEmoId, List.filter_map]
      have same : ((fun id => decide (id ≠ name pointer.getEmoId)) ∘ name) =
          fun id => decide (id ≠ pointer.getEmoId) := by
        funext id
        exact decide_eq_decide.mpr injective.ne_iff
      rw [same]
      exact Maps.pure (List.map name) _

theorem filterMatchedEmoIds_maps (injective : Function.Injective name) (board : ShopBoard)
    (typAndTriple : TypOptAndIsTripleOpt) (ids : List Nat) :
    Maps (List.map name) (filterMatchedEmoIds env board typAndTriple ids)
      (filterMatchedEmoIds (env.withLogs isViewLogsEnabled) (board.renamed name) typAndTriple
        (ids.map name)) := by
  induction ids with
  | nil => exact Maps.pure (List.map name) []
  | cons emoId rest ih =>
      apply (getEmoById_maps injective board emoId).bind
      intro emo
      apply (Maps.refl (isMatchedTypAndTripleBoardEmo env typAndTriple emo)).bind
      intro isMatched
      apply ih.bind
      intro filteredIds
      cases isMatched <;> exact Maps.pure (List.map name) _

theorem getEmoIdsByTarget_maps (injective : Function.Injective name) (board : ShopBoard)
    (pointer : EmoPointer) (target : Target) :
    Maps (List.map name) (getEmoIdsByTarget env board pointer target)
      (getEmoIdsByTarget (env.withLogs isViewLogsEnabled) (board.renamed name)
        (pointer.renamed name) target) := by
  cases target with
  | oneself => cases pointer <;> exact Maps.pure (List.map name) _
  | others destination typAndTriple =>
      apply (getEmoIdsByDestination_maps injective board pointer destination).bind
      exact filterMatchedEmoIds_maps injective board typAndTriple

end Targets

/-! ## Changing emos -/

section Changes

variable {state image : ShopState}

theorem addAttackAndHealthToEmo_renamed (attack health : Nat)
    (renamed : Renamed naming state image) (emoId : Nat) :
    Simulates (Renamed naming) (addAttackAndHealthToEmo env attack health state emoId)
      (addAttackAndHealthToEmo (env.withLogs isViewLogsEnabled) attack health image
        (naming.name emoId)) := by
  unfold addAttackAndHealthToEmo
  rw [renamed.board]
  apply (getEmoMutAndIndexById_maps naming.injective state.board emoId).bind
  intro found
  exact Simulates.pure ((renamed.addLog _ _).setEmoAt _ _)

theorem addAttackAndHealthToEmos_renamed (pointer : EmoPointer) (target : Target)
    (attack health : Nat) (renamed : Renamed naming state image) :
    Simulates (Renamed naming) (addAttackAndHealthToEmos env pointer target attack health state)
      (addAttackAndHealthToEmos (env.withLogs isViewLogsEnabled) (pointer.renamed naming.name)
        target attack health image) := by
  unfold addAttackAndHealthToEmos
  rw [renamed.board]
  apply (getEmoIdsByTarget_maps naming.injective state.board pointer target).bind
  intro ids
  exact Simulates.foldlM (fun _ _ emoId renamed =>
    addAttackAndHealthToEmo_renamed attack health renamed emoId) ids renamed

theorem increaseStatsOfLeft_renamed (pointer : EmoPointer) (attack health : Nat)
    (renamed : Renamed naming state image) :
    Simulates (fun value image => image.1 = value.1 ∧ Renamed naming value.2 image.2)
      (increaseStatsOfLeft env pointer attack health state)
      (increaseStatsOfLeft (env.withLogs isViewLogsEnabled) (pointer.renamed naming.name) attack
        health image) := by
  unfold increaseStatsOfLeft
  rw [renamed.board]
  apply (getLeftEmoId_maps naming.injective state.board pointer).bind
  intro left
  cases left with
  | none => exact Simulates.pure ⟨rfl, renamed⟩
  | some emoId =>
      apply (getEmoById_maps naming.injective state.board emoId).bind
      intro emo
      apply (Maps.refl (env.emoBases.find emo.baseId)).bind
      intro base
      apply (addAttackAndHealthToEmo_renamed attack health renamed emo.id).bind
      exact fun _ _ renamed => Simulates.pure ⟨rfl, renamed⟩

theorem increaseStatsOfRight_renamed (pointer : EmoPointer) (leftTypOpt : Option Typ)
    (attack health : Nat) (renamed : Renamed naming state image) :
    Simulates (Renamed naming) (increaseStatsOfRight env pointer leftTypOpt attack health state)
      (increaseStatsOfRight (env.withLogs isViewLogsEnabled) (pointer.renamed naming.name)
        leftTypOpt attack health image) := by
  unfold increaseStatsOfRight
  rw [renamed.board]
  apply (getRightEmoId_maps naming.injective state.board pointer).bind
  intro right
  cases right with
  | none => exact Simulates.pure renamed
  | some emoId =>
      apply (getEmoById_maps naming.injective state.board emoId).bind
      intro emo
      cases leftTypOpt with
      | none => exact addAttackAndHealthToEmo_renamed attack health renamed emo.id
      | some leftTyp =>
          apply (Maps.refl (env.emoBases.find emo.baseId)).bind
          intro base
          dsimp only [id]
          split
          · exact addAttackAndHealthToEmo_renamed attack health renamed emo.id
          · exact Simulates.pure renamed

theorem addAbilityToEmo_renamed (ability : Ability) (renamed : Renamed naming state image)
    (emoId : Nat) :
    Simulates (Renamed naming) (addAbilityToEmo env ability state emoId)
      (addAbilityToEmo (env.withLogs isViewLogsEnabled) ability image (naming.name emoId)) := by
  unfold addAbilityToEmo
  rw [renamed.board]
  apply (getEmoMutAndIndexById_maps naming.injective state.board emoId).bind
  intro found
  dsimp only [Prod.map, ShopBoardEmo.renamed]
  split
  · exact Simulates.pure renamed
  · exact Simulates.pure ((renamed.addLog _ _).setEmoAt _ _)

theorem Renamed.getCoin (renamed : Renamed naming state image) (isTripleAction : Bool)
    (coin : Nat) :
    Renamed naming (getCoin isTripleAction coin state) (getCoin isTripleAction coin image) where
  board := renamed.board
  gottenCoin := by simp only [Shop.getCoin, renamed.gottenCoin]
  generatedIds := renamed.generatedIds

theorem increaseStatsOfMenagerieLoop_renamed (actionEmoId typCount attack health : Nat)
    (candidates : List Nat) (typs : List Typ) (renamed : Renamed naming state image) :
    Simulates (Renamed naming)
      (increaseStatsOfMenagerieLoop env actionEmoId typCount attack health candidates typs state)
      (increaseStatsOfMenagerieLoop (env.withLogs isViewLogsEnabled) (naming.name actionEmoId)
        typCount attack health (candidates.map naming.name) typs image) := by
  induction candidates generalizing typs state image with
  | nil => exact Simulates.pure renamed
  | cons candidateEmoId rest ih =>
      rw [List.map_cons]
      unfold increaseStatsOfMenagerieLoop
      simp only [naming.injective.eq_iff]
      split
      · exact ih typs renamed
      · rw [renamed.board]
        apply (getEmoMutById_maps naming.injective state.board candidateEmoId).bind
        intro emo
        apply (Maps.refl (env.emoBases.find emo.baseId)).bind
        intro base
        dsimp only [id]
        split
        · exact ih typs renamed
        · apply (addAttackAndHealthToEmo_renamed attack health renamed candidateEmoId).bind
          intro next nextImage renamed
          split
          · exact Simulates.pure renamed
          · exact ih _ renamed

theorem shuffleAll_map {sampler : Sampler} (rng : sampler.Rng) (values : List Nat)
    (f : Nat → Nat) :
    sampler.shuffleAll rng (values.map f) =
      ((sampler.shuffleAll rng values).1.map f, (sampler.shuffleAll rng values).2) := by
  simp only [Sampler.shuffleAll, List.length_map, pick_map]

theorem increaseStatsOfMenagerie_renamed (rng : env.sampler.Rng)
    (actionEmoId typCount attack health : Nat) (renamed : Renamed naming state image) :
    Simulates (fun value image => image.1 = value.1 ∧ Renamed naming value.2 image.2)
      (increaseStatsOfMenagerie env rng actionEmoId typCount attack health state)
      (increaseStatsOfMenagerie (env.withLogs isViewLogsEnabled) rng (naming.name actionEmoId)
        typCount attack health image) := by
  unfold increaseStatsOfMenagerie
  rw [renamed.board, renamed_emoIds, shuffleAll_map]
  apply (getEmoById_maps naming.injective state.board actionEmoId).bind
  intro actionEmo
  apply (increaseStatsOfMenagerieLoop_renamed actionEmoId typCount _ _ _ [] renamed).bind
  exact fun _ _ renamed => Simulates.pure ⟨rfl, renamed⟩

end Changes

/-! ## Adding emos -/

/-- The calls and the state under other ids. -/
def RenamedCalls {sampler : Sampler} (naming : Naming) (calls image : List (Task sampler) × ShopState) :
    Prop :=
  image.1 = calls.1.map (Task.renamed naming.name) ∧ Renamed naming calls.2 image.2

section Additions

variable {state image : ShopState}

theorem renamed_getBoardPeriAbilities {name : Nat → Nat} (board : ShopBoard) :
    (board.renamed name).getBoardPeriAbilities =
      board.getBoardPeriAbilities.map fun (emoId, peri) => (name emoId, peri) := by
  simp only [ShopBoard.getBoardPeriAbilities, ShopBoard.renamed, List.flatMap_map,
    List.map_flatMap, List.map_map]
  rfl

theorem renamed_getBoardPreAbilities {name : Nat → Nat} (board : ShopBoard) :
    (board.renamed name).getBoardPreAbilities =
      board.getBoardPreAbilities.map fun (emoId, pre) => (name emoId, pre) := by
  simp only [ShopBoard.getBoardPreAbilities, ShopBoard.renamed, List.flatMap_map,
    List.map_flatMap, List.map_map]
  rfl

theorem additionCall?_renamed (name : Nat → Nat) (newEmoId : Nat) (newEmoTyp : Typ)
    (isNewEmoTriple : Bool) (abilityEmoId : Nat) (ability : Peri) :
    additionCall? (env.withLogs isViewLogsEnabled) (name newEmoId) newEmoTyp isNewEmoTriple
        (name abilityEmoId) ability =
      (additionCall? env newEmoId newEmoTyp isNewEmoTriple abilityEmoId ability).map
        (Task.renamed name) := by
  unfold additionCall?
  split
  · split <;> rfl
  · split <;> rfl
  · rfl

theorem callBoardAdditionAbilities_renamed (newEmoId : Nat) (newEmoTyp : Typ)
    (isNewEmoTriple : Bool) (renamed : Renamed naming state image) :
    RenamedCalls naming (callBoardAdditionAbilities env newEmoId newEmoTyp isNewEmoTriple state)
      (callBoardAdditionAbilities (env.withLogs isViewLogsEnabled) (naming.name newEmoId)
        newEmoTyp isNewEmoTriple image) := by
  refine ⟨?_, renamed⟩
  simp only [callBoardAdditionAbilities, renamed.board, renamed_getBoardPeriAbilities,
    List.filterMap_map, List.map_filterMap]
  apply List.filterMap_congr
  rintro ⟨abilityEmoId, ability⟩ _
  simp only [Function.comp_apply, naming.injective.eq_iff]
  split
  · rfl
  · exact additionCall?_renamed naming.name newEmoId newEmoTyp isNewEmoTriple abilityEmoId ability

theorem callEmoAdditionAbilities_renamed (newEmoId : Nat) (renamed : Renamed naming state image) :
    Maps (List.map (Task.renamed naming.name)) (callEmoAdditionAbilities env newEmoId state)
      (callEmoAdditionAbilities (env.withLogs isViewLogsEnabled) (naming.name newEmoId) image) := by
  unfold callEmoAdditionAbilities
  rw [renamed.board]
  apply (getEmoById_maps naming.injective state.board newEmoId).bind
  intro newEmo
  apply (Maps.refl (env.emoBases.find newEmo.baseId)).bind
  intro base
  apply Simulates.pure
  rw [List.map_append, List.map_map]
  rfl

theorem addEmoWithBoardEmo_renamed (newBoardEmo : ShopBoardEmo) (emoIndex : Nat)
    (renamed : Renamed naming state image) :
    Simulates (RenamedCalls naming) (addEmoWithBoardEmo env newBoardEmo emoIndex state)
      (addEmoWithBoardEmo (env.withLogs isViewLogsEnabled) (newBoardEmo.renamed naming.name)
        emoIndex image) := by
  unfold addEmoWithBoardEmo
  rw [renamed.board, renamed_countEmos]
  apply (Maps.refl (ensure (state.board.countEmos < boardEmoMaxCount) .boardMaxCapacity)).bind
  intro _
  apply (Maps.refl (ensure (emoIndex ≤ state.board.countEmos) .invalidEmoIndexForAdd)).bind
  intro _
  have logged := @Renamed.addLog env isViewLogsEnabled _ _ _ renamed
    (.add emoIndex newBoardEmo.intoBoardEmo)
    (.add emoIndex (newBoardEmo.renamed naming.name).intoBoardEmo)
  have added : Renamed naming
      { state.addLog env (.add emoIndex newBoardEmo.intoBoardEmo) with
        board := (state.addLog env (.add emoIndex newBoardEmo.intoBoardEmo)).board.insertIdx
          emoIndex newBoardEmo
        gottenCoin := 0 }
      { image.addLog (env.withLogs isViewLogsEnabled)
          (.add emoIndex (newBoardEmo.renamed naming.name).intoBoardEmo) with
        board := (image.addLog (env.withLogs isViewLogsEnabled)
          (.add emoIndex (newBoardEmo.renamed naming.name).intoBoardEmo)).board.insertIdx
          emoIndex (newBoardEmo.renamed naming.name)
        gottenCoin := 0 } := by
    refine ⟨?_, rfl, logged.generatedIds⟩
    simp only [logged.board, ShopBoard.renamed, List.map_insertIdx]
  apply (callEmoAdditionAbilities_renamed newBoardEmo.id added).bind
  intro calls
  refine Simulates.pure ⟨?_, added⟩
  dsimp only
  rw [List.map_append]
  cases triple : newBoardEmo.attributes.isTriple with
  | false =>
      simp only [ShopBoardEmo.renamed, triple, Bool.false_eq_true, if_false]
      rfl
  | true =>
      simp only [ShopBoardEmo.renamed, triple, if_true]
      rfl

/-- The next id is the image of the next id. -/
theorem Renamed.name_next (renamed : Renamed naming state image)
    (room : state.generatedIds < naming.limit) :
    naming.name (generateShopBoardEmoId state.generatedIds) =
      generateShopBoardEmoId image.generatedIds := by
  obtain ⟨count, first, second⟩ := renamed.generatedIds
  rw [first] at room ⊢
  rw [second]
  exact naming.next count room

theorem Renamed.generate (renamed : Renamed naming state image) :
    Renamed naming { state with generatedIds := state.generatedIds + 1 }
      { image with generatedIds := image.generatedIds + 1 } := by
  obtain ⟨count, first, second⟩ := renamed.generatedIds
  exact ⟨renamed.board, renamed.gottenCoin, count + 1, by rw [first]; rfl, by rw [second]; rfl⟩

theorem addEmoCalls_renamed (mtcEmoIds : List Nat) (baseId : Nat) (isTriple : Bool)
    (emoIndex : Nat) (renamed : Renamed naming state image)
    (room : state.generatedIds < naming.limit) :
    Simulates (RenamedCalls naming) (addEmoCalls env mtcEmoIds baseId isTriple emoIndex state)
      (addEmoCalls (env.withLogs isViewLogsEnabled) mtcEmoIds baseId isTriple emoIndex image) := by
  apply (Maps.refl (env.emoBases.find baseId)).bind
  intro base
  have new : (ShopBoardEmo.newWithBase state.generatedIds mtcEmoIds base isTriple).renamed
      naming.name = .newWithBase image.generatedIds mtcEmoIds base isTriple := by
    simp only [ShopBoardEmo.newWithBase, ShopBoardEmo.fromAttributes, ShopBoardEmo.renamed,
      renamed.name_next room]
  dsimp only [id]
  rw [← new]
  exact addEmoWithBoardEmo_renamed _ emoIndex renamed.generate

theorem setEmo_renamed (pointer : EmoPointer) (isTripleAction : Bool) (baseId : Nat)
    (renamed : Renamed naming state image)
    (room : state.board.countEmos < boardEmoMaxCount → state.generatedIds < naming.limit) :
    Simulates (RenamedCalls naming) (setEmo env pointer isTripleAction baseId state)
      (setEmo (env.withLogs isViewLogsEnabled) (pointer.renamed naming.name) isTripleAction baseId
        image) := by
  unfold setEmo
  rw [renamed.board, renamed_countEmos]
  split
  · rename_i fits
    apply (pointer.getRightEmoIndex_maps naming.injective state.board).bind
    intro index
    apply (addEmoCalls_renamed [] baseId isTripleAction index renamed (room fits)).bind
    rintro ⟨calls, after⟩ ⟨imageCalls, imageAfter⟩ ⟨rfl, renamedAfter⟩
    refine Simulates.pure ⟨?_, renamedAfter⟩
    rw [List.map_append, renamed.gottenCoin]
    rfl
  · exact Simulates.pure ⟨rfl, renamed⟩

end Additions

/-! ## Triples -/

section Triples

variable {name : Nat → Nat} {state image : ShopState}

theorem emosWithIndexes_maps (board : ShopBoard) :
    Maps (List.map (Prod.map (ShopBoardEmo.renamed name) id)) board.emosWithIndexes
      (board.renamed name).emosWithIndexes := by
  unfold ShopBoard.emosWithIndexes zipU8
  rw [renamed_length]
  split
  · rw [ShopBoard.renamed, List.zipIdx_map]
    exact Maps.pure (List.map _) _
  · exact Simulates.error

theorem removeTripleEmos_maps (board : ShopBoard) (indexes : List Nat) :
    Maps (Prod.map (ShopBoard.renamed name) (ShopBoard.renamed name))
      (removeTripleEmos board indexes) (removeTripleEmos (board.renamed name) indexes) := by
  have step : ∀ (removed removedImage : List ShopBoardEmo × ShopBoard) (index : Nat),
      removedImage = removed.map (ShopBoard.renamed name) (ShopBoard.renamed name) →
      Maps (Prod.map (ShopBoard.renamed name) (ShopBoard.renamed name))
        (removeTripleEmo removed index) (removeTripleEmo removedImage index) := by
    rintro ⟨removed, board⟩ _ index rfl
    dsimp only [Prod.map, removeTripleEmo]
    rw [renamed_getElem?]
    apply maps_okOr.bind
    intro emo
    refine Simulates.pure ?_
    simp only [Prod.map, ShopBoard.renamed, List.map_append, List.map_cons, List.map_nil,
      List.eraseIdx_map]
  have looped : Maps (Prod.map (ShopBoard.renamed name) (ShopBoard.renamed name))
      (indexes.reverse.foldlM removeTripleEmo ([], board))
      ((indexes.reverse.map id).foldlM removeTripleEmo ([], board.renamed name)) :=
    Simulates.foldlM step indexes.reverse rfl
  rw [List.map_id] at looped
  apply Maps.bind looped
  rintro ⟨removed, rest⟩
  refine Simulates.pure ?_
  simp only [Prod.map, ShopBoard.renamed, List.map_reverse]

theorem buildTripleEmo_renamed (sources : List ShopBoardEmo) (targetBaseId : Nat)
    (renamed : Renamed naming state image) (room : state.generatedIds < naming.limit) :
    Maps (ShopBoardEmo.renamed naming.name)
      (buildTripleEmo env state.generatedIds sources targetBaseId)
      (buildTripleEmo (env.withLogs isViewLogsEnabled) image.generatedIds
        (ShopBoard.renamed naming.name sources) targetBaseId) := by
  have nums : ∀ base, buildTripleEmoNums base (ShopBoard.renamed naming.name sources) =
      buildTripleEmoNums base sources := by
    intro base
    simp only [buildTripleEmoNums, ShopBoard.renamed, List.map_map]
    rfl
  apply (Maps.refl (env.emoBases.find targetBaseId)).bind
  intro base
  dsimp only [id]
  rw [nums]
  apply (Maps.refl (buildTripleEmoNums base sources)).bind
  rintro ⟨attack, health⟩
  refine Simulates.pure ?_
  simp only [ShopBoardEmo.renamed, ShopBoardEmo.fromAttributes, renamed.name_next room,
    ShopBoard.renamed, List.flatMap_map, buildTripleAbilities]
  rfl

theorem processTriple_renamed (newEmoId : Nat) (renamed : Renamed naming state image)
    (room : ∀ target newEmoIndex,
      state.board.getEmoAndIndexById newEmoId = .ok (target, newEmoIndex) →
      3 ≤ (state.board.filter (isSameBaseNotTriple target.baseId)).length →
      state.generatedIds < naming.limit) :
    Simulates (RenamedCalls naming) (processTriple env newEmoId state)
      (processTriple (env.withLogs isViewLogsEnabled) (naming.name newEmoId) image) := by
  unfold processTriple
  rw [renamed.board]
  apply (getEmoAndIndexById_maps naming.injective state.board newEmoId).and_performed.bind
  rintro ⟨target, newEmoIndex⟩ _ ⟨found, rfl⟩
  apply (emosWithIndexes_maps state.board).and_performed.bind
  rintro entries _ ⟨zipped, rfl⟩
  have same : ((entries.map (Prod.map (ShopBoardEmo.renamed naming.name) id)).filter
        fun entry => isSameBaseNotTriple target.baseId entry.1).map Prod.snd =
      (entries.filter fun entry => isSameBaseNotTriple target.baseId entry.1).map Prod.snd := by
    rw [List.filter_map, List.map_map]
    rfl
  have counted : ((entries.filter fun entry =>
        isSameBaseNotTriple target.baseId entry.1).map Prod.snd).length =
      (state.board.filter (isSameBaseNotTriple target.baseId)).length := by
    simp only [ShopBoard.emosWithIndexes, zipU8_eq_ok_iff] at zipped
    rw [← zipped.2]
    exact Positions.length_filter_zipIdx (isSameBaseNotTriple target.baseId) state.board
  dsimp only [Prod.map_apply, ShopBoardEmo.renamed, id]
  rw [same]
  split
  · rename_i enough
    rw [counted] at enough
    have fits := room target newEmoIndex found enough
    apply (removeTripleEmos_maps state.board _).bind
    rintro ⟨removed, board⟩
    apply (buildTripleEmo_renamed removed target.baseId renamed fits).bind
    intro tripleEmo
    apply (Maps.refl (okOr (checkedSub newEmoIndex _) .arithmeticOverflow)).bind
    intro tripleIndex
    have merged : Renamed naming
        { state with board, generatedIds := state.generatedIds + 1 }
        { image with
          board := ShopBoard.renamed naming.name board
          generatedIds := image.generatedIds + 1 } :=
      ⟨rfl, renamed.gottenCoin, renamed.generate.generatedIds⟩
    apply (addEmoWithBoardEmo_renamed tripleEmo tripleIndex (merged.addLog _ _)).bind
    rintro ⟨calls, after⟩ ⟨imageCalls, imageAfter⟩ ⟨rfl, renamedAfter⟩
    refine Simulates.pure ⟨?_, renamedAfter⟩
    rw [List.map_append, renamed.gottenCoin]
    rfl
  · exact Simulates.pure ⟨rfl, renamed⟩

end Triples

/-! ## Tasks -/

section Tasks

variable {state image : ShopState}

/-- An action that calls nothing. -/
theorem renamedCalls_nil {sampler : Sampler} {action imageAction : Result ShopState}
    (simulates : Simulates (Renamed naming) action imageAction) :
    Simulates (RenamedCalls naming)
      ((fun state => (([] : List (Task sampler)), state)) <$> action)
      ((fun state => (([] : List (Task sampler)), state)) <$> imageAction) :=
  simulates.map fun _ _ renamed => ⟨rfl, renamed⟩

theorem callAbilityAction_renamed (action : NormalAction) (pointer : EmoPointer)
    (isTripleAction : Bool) (renamed : Renamed naming state image)
    (room : AddsEmo (.callAbilityAction action pointer isTripleAction : Task env.sampler)
      state.board → state.generatedIds < naming.limit) :
    Simulates (RenamedCalls naming) (callAbilityAction env action pointer isTripleAction state)
      (callAbilityAction (env.withLogs isViewLogsEnabled) action (pointer.renamed naming.name)
        isTripleAction image) := by
  cases action with
  | setEmo baseId => exact setEmo_renamed pointer isTripleAction baseId renamed room
  | increaseStats target attack health =>
      exact renamedCalls_nil (addAttackAndHealthToEmos_renamed pointer target _ _ renamed)
  | increaseStatsOfAdjacentMenagerie attack health =>
      apply renamedCalls_nil
      apply (increaseStatsOfLeft_renamed pointer _ _ renamed).bind
      rintro ⟨leftTypOpt, next⟩ ⟨_, nextImage⟩ ⟨rfl, renamed⟩
      exact increaseStatsOfRight_renamed pointer _ _ _ renamed
  | increaseStatsByGrade target attack health =>
      apply renamedCalls_nil
      unfold increaseStatsByGrade
      rw [renamed.board]
      apply (pointer.getEmo_maps naming.injective state.board).bind
      intro actionEmo
      apply (Maps.refl (env.emoBases.find actionEmo.baseId)).bind
      exact fun base => addAttackAndHealthToEmos_renamed pointer target _ _ renamed
  | increaseStatsByEmoCount target countCondition attack health =>
      apply renamedCalls_nil
      unfold increaseStatsByEmoCount
      rw [renamed.board, countEmosByTypAndTriple_renamed naming.injective]
      apply (Maps.refl (countEmosByTypAndTriple env state.board pointer countCondition)).bind
      exact fun count => addAttackAndHealthToEmos_renamed pointer target _ _ renamed
  | addAbility target ability =>
      apply renamedCalls_nil
      unfold addAbility
      rw [renamed.board]
      apply (getEmoIdsByTarget_maps naming.injective state.board pointer target).bind
      intro ids
      exact Simulates.foldlM (fun _ _ emoId renamed =>
        addAbilityToEmo_renamed ability renamed emoId) ids renamed
  | getCoin coin => exact Simulates.pure ⟨rfl, renamed.getCoin isTripleAction coin⟩
  | getCoinByEmoCountDiv countCondition divisor =>
      apply renamedCalls_nil
      unfold getCoinByEmoCountDiv
      rw [renamed.board, countEmosByTypAndTriple_renamed naming.injective]
      apply (Maps.refl (countEmosByTypAndTriple env state.board pointer countCondition)).bind
      intro count
      apply (Maps.refl (ensure (divisor ≠ 0) .divisionByZero)).bind
      exact fun _ => Simulates.pure (renamed.getCoin isTripleAction (count / divisor))

theorem callAbilityActionAsOneself_renamed (action : NormalAction) (pointer : EmoPointer)
    (renamed : Renamed naming state image) :
    Simulates (RenamedCalls naming) (callAbilityActionAsOneself env action pointer state)
      (callAbilityActionAsOneself (env.withLogs isViewLogsEnabled) action
        (pointer.renamed naming.name) image) := by
  unfold callAbilityActionAsOneself
  rw [renamed.board]
  apply (pointer.getEmo_maps naming.injective state.board).bind
  exact fun actionEmo => Simulates.pure ⟨rfl, renamed⟩

theorem triggerSetActions_renamed (pointer : EmoPointer) (isOneselfEmoTriple : Bool)
    (renamed : Renamed naming state image) :
    Simulates (RenamedCalls naming) (triggerSetActions env pointer isOneselfEmoTriple state)
      (triggerSetActions (env.withLogs isViewLogsEnabled) (pointer.renamed naming.name)
        isOneselfEmoTriple image) := by
  unfold triggerSetActions
  rw [renamed.board]
  apply (pointer.getEmo_maps naming.injective state.board).bind
  intro allyEmo
  refine Simulates.pure ⟨?_, renamed⟩
  dsimp only
  rw [List.map_flatMap]
  cases isOneselfEmoTriple <;> rfl

theorem callAbilityActionAsAlly_renamed (action : PeriAsAllyAction) (oneselfEmoId : Nat)
    (pointer : EmoPointer) (renamed : Renamed naming state image) :
    Simulates (RenamedCalls naming)
      (callAbilityActionAsAlly env action oneselfEmoId pointer state)
      (callAbilityActionAsAlly (env.withLogs isViewLogsEnabled) action
        (naming.name oneselfEmoId) (pointer.renamed naming.name) image) := by
  unfold callAbilityActionAsAlly
  rw [renamed.board]
  apply (getEmoById_maps naming.injective state.board oneselfEmoId).bind
  intro oneselfEmo
  match action with
  | .oneselfTripleNormal normalAction => exact Simulates.pure ⟨rfl, renamed⟩
  | .custom .triggerSetActions =>
      exact triggerSetActions_renamed pointer oneselfEmo.attributes.isTriple renamed

theorem callPreAbilities_renamed (rng : env.sampler.Rng) (abilities : List (Nat × Pre))
    (renamed : Renamed naming state image) :
    Simulates (RenamedCalls naming) (callPreAbilities env rng abilities state)
      (callPreAbilities (env.withLogs isViewLogsEnabled) rng
        (abilities.map fun (emoId, pre) => (naming.name emoId, pre)) image) := by
  match abilities with
  | [] => exact Simulates.pure ⟨rfl, renamed⟩
  | (actionEmoId, .normal action) :: rest => exact Simulates.pure ⟨rfl, renamed⟩
  | (actionEmoId, .random (.increaseStatsOfMenagerie typCount attack health)) :: rest =>
      apply (increaseStatsOfMenagerie_renamed rng actionEmoId typCount attack health renamed).bind
      rintro ⟨next, after⟩ ⟨_, imageAfter⟩ ⟨rfl, renamed⟩
      exact Simulates.pure ⟨rfl, renamed⟩

theorem Renamed.withGottenCoin (renamed : Renamed naming state image) {coin imageCoin : Nat}
    (same : imageCoin = coin) :
    Renamed naming { state with gottenCoin := coin } { image with gottenCoin := imageCoin } :=
  ⟨renamed.board, same, renamed.generatedIds⟩

/-- Under other ids a task does the same, as long as the next id is the image
of the next id. -/
theorem perform_renamed (task : Task env.sampler) (renamed : Renamed naming state image)
    (room : AddsEmo task state.board → state.generatedIds < naming.limit) :
    Simulates (RenamedCalls naming) (perform env task state)
      (perform (env.withLogs isViewLogsEnabled) (task.renamed naming.name) image) := by
  cases task with
  | callPreAbilities rng abilities => exact callPreAbilities_renamed rng abilities renamed
  | callAbilityActionAsOneself action pointer =>
      exact callAbilityActionAsOneself_renamed action pointer renamed
  | callAbilityActionAsAlly action oneselfEmoId pointer =>
      exact callAbilityActionAsAlly_renamed action oneselfEmoId pointer renamed
  | callAbilityAction action pointer isTripleAction =>
      exact callAbilityAction_renamed action pointer isTripleAction renamed room
  | callBoardAdditionAbilities newEmoId newEmoTyp isNewEmoTriple =>
      exact Simulates.pure
        (callBoardAdditionAbilities_renamed newEmoId newEmoTyp isNewEmoTriple renamed)
  | processTriple newEmoId =>
      exact processTriple_renamed newEmoId renamed fun target newEmoIndex found enough =>
        room ⟨target, newEmoIndex, found, enough⟩
  | setEmoReturn gottenCoin =>
      exact Simulates.pure ⟨rfl, renamed.withGottenCoin (by rw [renamed.gottenCoin])⟩
  | processTripleReturn gottenCoin =>
      exact Simulates.pure ⟨rfl, renamed.withGottenCoin (by rw [renamed.gottenCoin])⟩

/-- A task that adds an emo generates an id for it. -/
theorem AddsEmo.generatedIds {task : Task env.sampler} {after : ShopState}
    {calls : List (Task env.sampler)} (adds : AddsEmo task state.board)
    (performed : perform env task state = .ok (calls, after)) :
    after.generatedIds = state.generatedIds + 1 := by
  unfold AddsEmo at adds
  split at adds
  · simp only [perform, callAbilityAction, setEmo, if_pos adds, Result.bind_eq_ok_iff,
      Result.pure_eq_ok_iff, Prod.mk.injEq] at performed
    obtain ⟨_, _, ⟨additionCalls, _⟩, added, _, rfl⟩ := performed
    obtain ⟨_, _, _, generatedIds⟩ := addEmoCalls_addition added
    exact generatedIds
  · obtain ⟨target, newEmoIndex, found, enough⟩ := adds
    obtain ⟨other, otherIndex, again, merge | ⟨few, _⟩⟩ := processTriple_cases performed
    · exact merge.generatedIds
    · rw [found] at again
      cases again
      omega
  · exact adds.elim

end Tasks

/-! ## Actions -/

section Actions

variable {state image : ShopState}

/-- Under other ids an action leads to the same board and the same coins, as
long as the ids that it generates are the images of those it would generate. -/
theorem runCalls_renamed {fuel : Nat} {calls imageCalls : List (Task env.sampler) × ShopState}
    {last : ShopState} (renamed : RenamedCalls naming calls imageCalls)
    (bound : last.generatedIds ≤ naming.limit)
    (performed : runCalls env fuel calls = pure last) :
    ∃ lastImage, runCalls (env.withLogs isViewLogsEnabled) fuel imageCalls = pure lastImage ∧
      Renamed naming last lastImage := by
  obtain ⟨tasks, start⟩ := calls
  obtain ⟨imageTasks, startImage⟩ := imageCalls
  obtain ⟨rfl, renamed⟩ := renamed
  have within : ∀ {stack : List (Task env.sampler)} {state last : ShopState},
      CallMachine.Returns (perform env) ⟨stack, state⟩ last →
      last.generatedIds ≤ naming.limit → state.generatedIds ≤ naming.limit :=
    fun returned bounded => (Returns.generatedIds_le returned).trans bounded
  apply run_simulates within _ renamed bound performed
  intro task calls state image after renamed bounded performed
  have room : AddsEmo task state.board → state.generatedIds < naming.limit := fun adds => by
    have := adds.generatedIds performed
    omega
  obtain ⟨⟨_, imageAfter⟩, reached, rfl, after⟩ :=
    @perform_renamed _ isViewLogsEnabled _ _ _ task renamed room (calls, after) performed
  exact ⟨imageAfter, reached, after⟩

theorem startShop_renamed {fuel seed : Nat} {last : ShopState}
    (renamed : Renamed naming state image) (bound : last.generatedIds ≤ naming.limit)
    (performed : startShop env fuel seed state = pure last) :
    ∃ lastImage, startShop (env.withLogs isViewLogsEnabled) fuel seed image = pure lastImage ∧
      Renamed naming last lastImage := by
  apply runCalls_renamed _ bound performed
  refine ⟨?_, renamed.withGottenCoin rfl⟩
  simp only [startShopCalls, renamed.board, renamed_getBoardPreAbilities, List.map_cons,
    List.map_nil, Task.renamed]

theorem sellEmoCalls_renamed (emoIndex : Nat) (renamed : Renamed naming state image) :
    Simulates (RenamedCalls naming) (sellEmoCalls env emoIndex state)
      (sellEmoCalls (env.withLogs isViewLogsEnabled) emoIndex image) := by
  unfold sellEmoCalls
  rw [renamed.board, renamed_countEmos, renamed_getElem?]
  apply (Maps.refl (ensure (emoIndex < state.board.countEmos) .invalidIndexForSell)).bind
  intro _
  apply maps_okOr.bind
  intro sold
  have logged := @Renamed.addLog env isViewLogsEnabled _ _ _ renamed (.remove emoIndex)
    (.remove emoIndex)
  refine Simulates.pure ⟨?_, ?_, rfl, logged.generatedIds⟩
  · dsimp only
    rw [List.map_map]
    rfl
  · simp only [logged.board, ShopBoard.renamed, List.eraseIdx_map]

theorem sellEmo_renamed {fuel emoIndex : Nat} {last : ShopState}
    (renamed : Renamed naming state image) (bound : last.generatedIds ≤ naming.limit)
    (performed : sellEmo env fuel emoIndex state = pure last) :
    ∃ lastImage, sellEmo (env.withLogs isViewLogsEnabled) fuel emoIndex image = pure lastImage ∧
      Renamed naming last lastImage := by
  simp only [sellEmo, Fueled.bind_eq_pure_iff, Fueled.of_eq_pure_iff] at performed ⊢
  obtain ⟨calls, sold, performed⟩ := performed
  obtain ⟨imageCalls, reached, renamedCalls⟩ :=
    @sellEmoCalls_renamed _ isViewLogsEnabled _ _ _ emoIndex renamed calls sold
  obtain ⟨lastImage, ended, renamedLast⟩ :=
    @runCalls_renamed _ isViewLogsEnabled _ _ _ _ _ renamedCalls bound performed
  exact ⟨lastImage, ⟨imageCalls, reached, ended⟩, renamedLast⟩

theorem addEmo_renamed {fuel baseId emoIndex : Nat} {mtcEmoIds : List Nat} {isTriple : Bool}
    {last : ShopState} (renamed : Renamed naming state image)
    (bound : last.generatedIds ≤ naming.limit)
    (performed : addEmo env fuel mtcEmoIds baseId isTriple emoIndex state = pure last) :
    ∃ lastImage, addEmo (env.withLogs isViewLogsEnabled) fuel mtcEmoIds baseId isTriple emoIndex
        image = pure lastImage ∧ Renamed naming last lastImage := by
  simp only [addEmo, Fueled.bind_eq_pure_iff, Fueled.of_eq_pure_iff] at performed ⊢
  obtain ⟨⟨calls, started⟩, added, performed⟩ := performed
  obtain ⟨_, _, _, generatedIds⟩ := addEmoCalls_addition added
  have later := Returns.generatedIds_le (runCalls_returns performed)
  dsimp only at later generatedIds
  obtain ⟨imageCalls, reached, renamedCalls⟩ := @addEmoCalls_renamed _ isViewLogsEnabled _ _ _
    mtcEmoIds baseId isTriple emoIndex renamed (by omega) (calls, started) added
  obtain ⟨lastImage, ended, renamedLast⟩ :=
    @runCalls_renamed _ isViewLogsEnabled _ _ _ _ _ renamedCalls bound performed
  exact ⟨lastImage, ⟨imageCalls, reached, ended⟩, renamedLast⟩

/-- An action counts its coins from the start. -/
theorem addEmo_gottenCoin (fuel : Nat) (mtcEmoIds : List Nat) (baseId : Nat) (isTriple : Bool)
    (emoIndex gottenCoin : Nat) (state : ShopState) :
    addEmo env fuel mtcEmoIds baseId isTriple emoIndex { state with gottenCoin } =
      addEmo env fuel mtcEmoIds baseId isTriple emoIndex state := by
  have same : ∀ newEmo generatedIds,
      addEmoWithBoardEmo env newEmo emoIndex { state with gottenCoin, generatedIds } =
        addEmoWithBoardEmo env newEmo emoIndex { state with generatedIds } := by
    intro newEmo generatedIds
    unfold addEmoWithBoardEmo ShopState.addLog
    dsimp only
    split <;> rfl
  simp only [addEmo, addEmoCalls, same]

theorem sellEmo_gottenCoin (fuel emoIndex gottenCoin : Nat) (state : ShopState) :
    sellEmo env fuel emoIndex { state with gottenCoin } = sellEmo env fuel emoIndex state := by
  have same : sellEmoCalls env emoIndex { state with gottenCoin } =
      sellEmoCalls env emoIndex state := by
    unfold sellEmoCalls ShopState.addLog
    dsimp only
    split <;> rfl
  simp only [sellEmo, same]

end Actions

/-! ## Rebuilt boards -/

/-- A board that is rebuilt under fresh ids is the old one under other ids. -/
theorem exists_naming {first generatedIds limit : Nat} {state : ShopState}
    (fresh : Fresh first state) (start : first ≤ state.generatedIds)
    (enough : generatedIds + state.board.length ≤ limit)
    (room : limit ≤ generatedIds + idCount)
    (chainRoom : state.generatedIds + (limit - (generatedIds + state.board.length)) ≤
      first + idCount) :
    ∃ naming : Naming, naming.first = generatedIds + state.board.length ∧
      naming.second = state.generatedIds ∧ naming.limit = limit ∧
      Renamed naming (openShop state.board.intoBoard generatedIds)
        { state with gottenCoin := 0 } := by
  obtain ⟨extra, rfl⟩ := Nat.exists_eq_add_of_le enough
  rw [Nat.add_sub_cancel_left] at chainRoom
  have length := ShopBoard.intoBoard_length state.board
  -- The ids that the rebuilt board has or may get, and what they stand for.
  let sources := (List.range' generatedIds (state.board.length + extra)).map
    generateShopBoardEmoId
  let targets := state.board.map ShopBoardEmo.id ++
    (List.range' state.generatedIds extra).map generateShopBoardEmoId
  have same : sources.length = targets.length := by simp [sources, targets]
  have sourcesNodup : sources.Nodup := nodup_generated generatedIds (by omega)
  have targetsNodup : targets.Nodup := by
    apply List.nodup_append.mpr
    refine ⟨fresh.distinct, nodup_generated state.generatedIds (by omega), ?_⟩
    intro old oldMember new newMember equal
    obtain ⟨emo, present, rfl⟩ := List.mem_map.mp oldMember
    obtain ⟨number, inRange, rfl⟩ := List.mem_map.mp newMember
    rw [List.mem_range'_1] at inRange
    obtain ⟨oldNumber, lower, upper, issued⟩ := fresh.issued emo present
    have := generateShopBoardEmoId_inj lower (by omega) (by omega) (by omega)
      (issued.trans equal)
    omega
  have bound : ∀ target ∈ targets, target < idCount := by
    intro target member
    rcases List.mem_append.mp member with old | new
    · obtain ⟨emo, present, rfl⟩ := List.mem_map.mp old
      obtain ⟨number, _, _, issued⟩ := fresh.issued emo present
      rw [← issued]
      exact generateShopBoardEmoId_lt number
    · obtain ⟨number, _, rfl⟩ := List.mem_map.mp new
      exact generateShopBoardEmoId_lt number
  have renumbered : ∀ index (inSources : index < sources.length),
      renumber idCount sources targets (generateShopBoardEmoId (generatedIds + index)) =
        targets[index] := by
    intro index inSources
    rw [← renumber_getElem idCount sourcesNodup inSources (same ▸ inSources)]
    simp [sources]
  refine ⟨{
    name := renumber idCount sources targets
    injective := renumber_injective same targetsNodup bound
    first := generatedIds + state.board.length
    second := state.generatedIds
    limit := generatedIds + state.board.length + extra
    next := fun count below => ?_ }, rfl, rfl, rfl, ?_⟩
  · rw [Nat.add_assoc, renumbered (state.board.length + count) (by simp [sources]; omega)]
    simp [targets, List.getElem_append_right]
  · refine ⟨?_, rfl, 0, by rw [openShop, length]; rfl, rfl⟩
    apply List.ext_getElem
    · simp [openShop]
    · intro index left right
      have inside : index < state.board.length := left
      simp only [openShop, ShopBoard.renamed, List.getElem_map, ShopBoard.fromBoard,
        List.getElem_zipIdx, ShopBoardEmo.renamed, ShopBoardEmo.fromBoardEmo,
        ShopBoardEmo.fromAttributes]
      rw [renumbered index (by simp [sources]; omega)]
      simp [targets, List.getElem_append_left, inside, ShopBoard.intoBoard,
        ShopBoardEmo.intoBoardEmo]

end Shop

end EmojiBattler.Mtc
