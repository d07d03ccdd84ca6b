import EmojiBattler.Library.Numbering
import EmojiBattler.Library.Simulation
import EmojiBattler.Battle.Organizer

/-! # Battles with other ids

A battle compares ids and does nothing else with them.  A client generates ids
from wherever its generator stands and collects logs; the battle is the same. -/

namespace EmojiBattler.Mtc

namespace Battle

open EmojiBattler.Emo Sampling Simulation Numbering CallMachine
open EmojiBattler.Emo.Ability (Side Destination Target TargetOrRandom TypOptAndIsTripleOpt)
open EmojiBattler.Emo.Ability.Battle (NormalAction GeneralAsAllyAction AsAllyAction)

def BattleEmo.renamed (name : Nat → Nat) (emo : BattleEmo) : BattleEmo :=
  { emo with id := name emo.id }

def renamedBoard (name : Nat → Nat) (board : List BattleEmo) : List BattleEmo :=
  board.map (BattleEmo.renamed name)

def BattleBoards.renamed (name : Nat → Nat) (boards : BattleBoards) : BattleBoards where
  board0 := renamedBoard name boards.board0
  board1 := renamedBoard name boards.board1

def BoardAbility.renamed (name : Nat → Nat) (entry : BoardAbility) : BoardAbility :=
  { entry with ownerId := name entry.ownerId }

def Task.renamed (name : Nat → Nat) : Task → Task
  | .callPreAbilitiesOf playerIndex => .callPreAbilitiesOf playerIndex
  | .attack attackPlayerIndex => .attack attackPlayerIndex
  | .attackDamage attackPlayerIndex attackEmoIndex defenseEmoIndex =>
      .attackDamage attackPlayerIndex attackEmoIndex defenseEmoIndex
  | .attackDamageCounter attackPlayerIndex attackEmoIndex defenseEmoAttack attackEmoId =>
      .attackDamageCounter attackPlayerIndex attackEmoIndex defenseEmoAttack (name attackEmoId)
  | .countAttackAndSurvived attackPlayerIndex attackEmoIndex attackEmoId =>
      .countAttackAndSurvived attackPlayerIndex attackEmoIndex (name attackEmoId)
  | .callAbilityNormalActionAsOneself playerIndex action actionEmoIndex retiredActionEmoOpt
      ownerId =>
      .callAbilityNormalActionAsOneself playerIndex action actionEmoIndex
        (retiredActionEmoOpt.map (BattleEmo.renamed name)) (ownerId.map name)
  | .callAbilityGeneralAsAllyAction playerIndex action allyEmoIndex retiredAllyEmoOpt
      oneselfEmoIndex ownerId =>
      .callAbilityGeneralAsAllyAction playerIndex action allyEmoIndex
        (retiredAllyEmoOpt.map (BattleEmo.renamed name)) oneselfEmoIndex (name ownerId)
  | .callShieldRemovedAbilityOf playerIndex action emoIndex excludesSameBase
      shieldRemovedEmoBaseId ownerId =>
      .callShieldRemovedAbilityOf playerIndex action emoIndex excludesSameBase
        shieldRemovedEmoBaseId (name ownerId)
  | .callEmoRetireBoardAbilities playerIndex retiredEmoIndex retiredEmo =>
      .callEmoRetireBoardAbilities playerIndex retiredEmoIndex (retiredEmo.renamed name)
  | .callEmoRetireRivalAbilities playerIndex retiredEmo =>
      .callEmoRetireRivalAbilities playerIndex (retiredEmo.renamed name)
  | .setEmo playerIndex emoIndex baseId isTriple attackAndSurvivedCount side =>
      .setEmo playerIndex emoIndex baseId isTriple attackAndSurvivedCount side
  | .damageAllEmosOf playerIndex damage emoId => .damageAllEmosOf playerIndex damage (name emoId)
  | .marchBegin tick => .marchBegin tick
  | .marchLoop tick => .marchLoop tick
  | .marchNext tick => .marchNext tick

/-- An injective map of ids that takes what a generator returns from `first`
calls on to what it returns from `second` calls on. -/
structure Naming where
  name : Nat → Nat
  injective : Function.Injective name
  first : Nat
  second : Nat
  next : ∀ count, name (generateBattleEmoId (first + count)) = generateBattleEmoId (second + count)

/-- The ids are those of a `u16`, so that a generator that starts elsewhere
returns them rotated. -/
def Naming.shifting (first second : Nat) : Naming where
  name := shifted 65536 first second
  injective := shifted_injective 65536 first second
  first := first
  second := second
  next := shifted_mod (by decide) first second

/-- Both generators were called equally often since `first` and `second`. -/
def Naming.Together (naming : Naming) (generatedIds imageIds : Nat) : Prop :=
  ∃ count, generatedIds = naming.first + count ∧ imageIds = naming.second + count

/-- The second state is the first one under other ids.  Its logs may be any. -/
structure Renamed {sampler : Sampler} (naming : Naming) (state image : BattleState sampler) :
    Prop where
  boards : image.boards = state.boards.renamed naming.name
  rng : image.rng = state.rng
  generatedIds : naming.Together state.generatedIds image.generatedIds

/-- The calls and the state under other ids. -/
def RenamedCalls {sampler : Sampler} (naming : Naming)
    (calls image : List Task × BattleState sampler) : Prop :=
  image.1 = calls.1.map (Task.renamed naming.name) ∧ Renamed naming calls.2 image.2

variable {env : Env} {isViewLogsEnabled : Bool} {naming : Naming}

/-! ## Generated ids -/

theorem Naming.Together.succ {generatedIds imageIds : Nat}
    (together : naming.Together generatedIds imageIds) :
    naming.Together (generatedIds + 1) (imageIds + 1) := by
  obtain ⟨count, rfl, rfl⟩ := together
  exact ⟨count + 1, rfl, rfl⟩

theorem newWithAttributes_renamed {generatedIds imageIds : Nat}
    (together : naming.Together generatedIds imageIds) (base : Base) (attributes : Attributes) :
    BattleEmo.newWithAttributes imageIds base attributes =
      (BattleEmo.newWithAttributes generatedIds base attributes).renamed naming.name := by
  obtain ⟨count, rfl, rfl⟩ := together
  rw [BattleEmo.newWithAttributes, ← naming.next]
  rfl

/-! ## Boards -/

section Boards

variable {name : Nat → Nat}

@[simp] theorem renamedBoard_length (board : List BattleEmo) :
    (renamedBoard name board).length = board.length :=
  List.length_map _

@[simp] theorem renamedBoard_getElem? (board : List BattleEmo) (index : Nat) :
    (renamedBoard name board)[index]? = board[index]?.map (BattleEmo.renamed name) :=
  List.getElem?_map

theorem renamedBoard_zipIdx (board : List BattleEmo) :
    (renamedBoard name board).zipIdx = board.zipIdx.map (Prod.map (BattleEmo.renamed name) id) :=
  List.zipIdx_map

@[simp] theorem renamed_getBoard (boards : BattleBoards) (playerIndex : PlayerIndex) :
    (boards.renamed name).getBoard playerIndex = renamedBoard name (boards.getBoard playerIndex) := by
  cases playerIndex <;> rfl

@[simp] theorem renamed_countBoardEmos (boards : BattleBoards) (playerIndex : PlayerIndex) :
    (boards.renamed name).countBoardEmos playerIndex = boards.countBoardEmos playerIndex := by
  rw [BattleBoards.countBoardEmos, renamed_getBoard, renamedBoard_length,
    BattleBoards.countBoardEmos]

@[simp] theorem renamed_isEmptyBoard (boards : BattleBoards) (playerIndex : PlayerIndex) :
    (boards.renamed name).isEmptyBoard playerIndex = boards.isEmptyBoard playerIndex := by
  rw [BattleBoards.isEmptyBoard, renamed_getBoard, renamedBoard, List.isEmpty_map,
    BattleBoards.isEmptyBoard]

@[simp] theorem renamed_hasEmoAtIndex (boards : BattleBoards) (playerIndex : PlayerIndex)
    (emoIndex : Nat) :
    (boards.renamed name).hasEmoAtIndex playerIndex emoIndex =
      boards.hasEmoAtIndex playerIndex emoIndex := by
  rw [BattleBoards.hasEmoAtIndex, renamed_countBoardEmos, BattleBoards.hasEmoAtIndex]

theorem renamed_setBoard (boards : BattleBoards) (playerIndex : PlayerIndex)
    (board : List BattleEmo) :
    (boards.setBoard playerIndex board).renamed name =
      (boards.renamed name).setBoard playerIndex (renamedBoard name board) := by
  cases playerIndex <;> rfl

theorem renamed_setEmo (boards : BattleBoards) (playerIndex : PlayerIndex) (emoIndex : Nat)
    (emo : BattleEmo) :
    (boards.setEmo playerIndex emoIndex emo).renamed name =
      (boards.renamed name).setEmo playerIndex emoIndex (emo.renamed name) := by
  rw [BattleBoards.setEmo, renamed_setBoard, BattleBoards.setEmo, renamed_getBoard, renamedBoard,
    renamedBoard, List.map_set]

theorem renamed_findEmoIndexById (injective : Function.Injective name) (boards : BattleBoards)
    (playerIndex : PlayerIndex) (emoId : Nat) :
    (boards.renamed name).findEmoIndexById playerIndex (name emoId) =
      boards.findEmoIndexById playerIndex emoId := by
  rw [BattleBoards.findEmoIndexById, renamed_getBoard, renamedBoard, List.findIdx?_map,
    BattleBoards.findEmoIndexById]
  congr 1
  funext emo
  exact decide_eq_decide.mpr injective.eq_iff

theorem getEmo_maps (boards : BattleBoards) (playerIndex : PlayerIndex) (emoIndex : Nat) :
    Maps (BattleEmo.renamed name) (boards.getEmo playerIndex emoIndex)
      ((boards.renamed name).getEmo playerIndex emoIndex) := by
  rw [BattleBoards.getEmo, BattleBoards.getEmo, renamed_getBoard, renamedBoard_getElem?]
  exact maps_okOr

theorem getEmoMut_maps (boards : BattleBoards) (playerIndex : PlayerIndex) (emoIndex : Nat) :
    Maps (BattleEmo.renamed name) (boards.getEmoMut playerIndex emoIndex)
      ((boards.renamed name).getEmoMut playerIndex emoIndex) := by
  rw [BattleBoards.getEmoMut, BattleBoards.getEmoMut, renamed_getBoard, renamedBoard_getElem?]
  exact maps_okOr

theorem renamed_getBoardAbilities (boards : BattleBoards) (playerIndex : PlayerIndex) :
    (boards.renamed name).getBoardAbilities playerIndex =
      (boards.getBoardAbilities playerIndex).map (BoardAbility.renamed name) := by
  simp only [BattleBoards.getBoardAbilities, renamed_getBoard, renamedBoard_zipIdx,
    List.flatMap_map, List.map_flatMap, List.map_map]
  rfl

/-- Calls selected from the abilities of a board are renamed with their owners. -/
theorem filterMap_renamed {select selectImage : BoardAbility → Option Task}
    (boards : BattleBoards) (playerIndex : PlayerIndex)
    (same : ∀ entry, selectImage (entry.renamed name) = (select entry).map (Task.renamed name)) :
    ((boards.renamed name).getBoardAbilities playerIndex).filterMap selectImage =
      ((boards.getBoardAbilities playerIndex).filterMap select).map (Task.renamed name) := by
  rw [renamed_getBoardAbilities, List.filterMap_map, List.map_filterMap]
  exact List.filterMap_congr fun entry _ => same entry

end Boards

/-! ## Targets -/

section Targets

variable {name : Nat → Nat}

theorem otherEmos_renamed (board : List BattleEmo) (emoIndex : Nat) (isActionEmoRetired : Bool) :
    otherEmos (renamedBoard name board) emoIndex isActionEmoRetired =
      (otherEmos board emoIndex isActionEmoRetired).map (Prod.map (BattleEmo.renamed name) id) := by
  rw [otherEmos, renamedBoard_zipIdx, List.filter_map]
  rfl

/-- A filter that reads no ids selects the same indexes. -/
theorem filter_renamed {selects : BattleEmo × Nat → Bool}
    (same : ∀ entry, selects (Prod.map (BattleEmo.renamed name) id entry) = selects entry)
    (entries : List (BattleEmo × Nat)) :
    ((entries.map (Prod.map (BattleEmo.renamed name) id)).filter selects).map Prod.snd =
      (entries.filter selects).map Prod.snd := by
  rw [List.filter_map, funext same (f := selects ∘ _), List.map_map]
  rfl

theorem getEmosWithIndex_maps (board : List BattleEmo) (emoIndex : Nat)
    (destination : Destination) (isActionEmoRetired : Bool) :
    Maps (List.map (Prod.map (BattleEmo.renamed name) id))
      (getEmosWithIndex board emoIndex destination isActionEmoRetired)
      (getEmosWithIndex (renamedBoard name board) emoIndex destination isActionEmoRetired) := by
  cases destination with
  | right =>
      unfold getEmosWithIndex
      dsimp only
      rw [renamedBoard_getElem?]
      cases board[if isActionEmoRetired then emoIndex else emoIndex + 1]? with
      | none => exact Simulates.pure rfl
      | some emo => exact Simulates.pure rfl
  | left =>
      unfold getEmosWithIndex
      dsimp only
      cases checkedSub emoIndex 1 with
      | none => exact Simulates.pure rfl
      | some index =>
          dsimp only
          rw [renamedBoard_getElem?]
          exact maps_okOr.bind fun emo => Simulates.pure rfl
  | all =>
      unfold getEmosWithIndex
      dsimp only
      rw [otherEmos_renamed]
      exact Simulates.pure rfl

theorem getMatchedEmoIndexsFromBoard_maps (board : List BattleEmo) (emoIndex : Nat)
    (target : Target) (isActionEmoRetired : Bool) :
    Maps id (getMatchedEmoIndexsFromBoard board emoIndex target isActionEmoRetired)
      (getMatchedEmoIndexsFromBoard (renamedBoard name board) emoIndex target
        isActionEmoRetired) := by
  cases target with
  | oneself => exact Simulates.pure rfl
  | others destination typAndTriple =>
      apply (getEmosWithIndex_maps board emoIndex destination isActionEmoRetired).bind
      intro emosWithIndex
      exact Simulates.pure (filter_renamed (fun _ => rfl) emosWithIndex)

theorem getMatchedEmoIndexsFromBoardByTargetOrRandom_maps (board : List BattleEmo)
    (emoIndex : Nat) (targetOrRandom : TargetOrRandom) (isActionEmoRetired : Bool)
    (rng : env.sampler.Rng) :
    Maps id
      (getMatchedEmoIndexsFromBoardByTargetOrRandom env board emoIndex targetOrRandom
        isActionEmoRetired rng)
      (getMatchedEmoIndexsFromBoardByTargetOrRandom (env.withLogs isViewLogsEnabled)
        (renamedBoard name board) emoIndex targetOrRandom isActionEmoRetired rng) := by
  cases targetOrRandom with
  | target target =>
      apply (getMatchedEmoIndexsFromBoard_maps board emoIndex target isActionEmoRetired).bind
      exact fun indexes => Simulates.pure rfl
  | random typAndTriple count =>
      unfold getMatchedEmoIndexsFromBoardByTargetOrRandom
      dsimp only
      rw [otherEmos_renamed, filter_renamed fun _ => rfl]
      exact Simulates.pure rfl

theorem countEmosForStats_renamed (boards : BattleBoards) (playerIndex : PlayerIndex)
    (actionEmoIndex : Nat) (side : Side) (countCondition : TypOptAndIsTripleOpt) :
    countEmosForStats (boards.renamed name) playerIndex actionEmoIndex side countCondition =
      countEmosForStats boards playerIndex actionEmoIndex side countCondition := by
  cases side with
  | ally =>
      rw [countEmosForStats, renamed_getBoard, renamedBoard_zipIdx, List.filter_map,
        List.length_map]
      rfl
  | rival =>
      rw [countEmosForStats, renamed_getBoard, renamedBoard, List.filter_map, List.length_map]
      rfl

end Targets

/-! ## Changing emos -/

section Changes

variable {state image : St env}

theorem Renamed.addLog (renamed : Renamed naming state image) (isViewLogsEnabled : Bool)
    (log imageLog : Log) :
    Renamed naming (state.addLog env log)
      (image.addLog (env.withLogs isViewLogsEnabled) imageLog) where
  boards := by simpa using renamed.boards
  rng := by simpa using renamed.rng
  generatedIds := by simpa using renamed.generatedIds

theorem Renamed.getBoard (renamed : Renamed naming state image) (playerIndex : PlayerIndex) :
    image.getBoard playerIndex = renamedBoard naming.name (state.getBoard playerIndex) := by
  rw [BattleState.getBoard, renamed.boards, renamed_getBoard]

theorem Renamed.setBoard (renamed : Renamed naming state image) (playerIndex : PlayerIndex)
    (board : List BattleEmo) :
    Renamed naming { state with boards := state.boards.setBoard playerIndex board }
      { image with boards :=
        image.boards.setBoard playerIndex (renamedBoard naming.name board) } where
  boards := by rw [renamed.boards, renamed_setBoard]
  rng := renamed.rng
  generatedIds := renamed.generatedIds

theorem Renamed.setEmo (renamed : Renamed naming state image) (playerIndex : PlayerIndex)
    (emoIndex : Nat) (emo : BattleEmo) :
    Renamed naming { state with boards := state.boards.setEmo playerIndex emoIndex emo }
      { image with boards :=
        image.boards.setEmo playerIndex emoIndex (emo.renamed naming.name) } where
  boards := by rw [renamed.boards, renamed_setEmo]
  rng := renamed.rng
  generatedIds := renamed.generatedIds

theorem Renamed.withRng (renamed : Renamed naming state image) (rng : env.sampler.Rng) :
    Renamed naming { state with rng } { image with rng } :=
  ⟨renamed.boards, rfl, renamed.generatedIds⟩

theorem increaseEmoStats_renamed (playerIndex : PlayerIndex) (attack health emoIndex : Nat)
    (renamed : Renamed naming state image) :
    Simulates (Renamed naming) (increaseEmoStats env playerIndex attack health state emoIndex)
      (increaseEmoStats (env.withLogs isViewLogsEnabled) playerIndex attack health image
        emoIndex) := by
  unfold increaseEmoStats
  split
  · exact Simulates.pure renamed
  · rw [renamed.boards]
    apply (getEmoMut_maps state.boards playerIndex emoIndex).bind
    intro emo
    rw [← renamed.boards]
    exact Simulates.pure ((renamed.setEmo playerIndex emoIndex _).addLog isViewLogsEnabled _ _)

theorem decreaseEmoStats_renamed (playerIndex : PlayerIndex) (attack health emoIndex : Nat)
    (renamed : Renamed naming state image) :
    Simulates (Renamed naming) (decreaseEmoStats env playerIndex attack health state emoIndex)
      (decreaseEmoStats (env.withLogs isViewLogsEnabled) playerIndex attack health image
        emoIndex) := by
  unfold decreaseEmoStats
  split
  · exact Simulates.pure renamed
  · rw [renamed.boards]
    apply (getEmoMut_maps state.boards playerIndex emoIndex).bind
    intro emo
    rw [← renamed.boards]
    exact Simulates.pure ((renamed.setEmo playerIndex emoIndex _).addLog isViewLogsEnabled _ _)

theorem addAbilityToEmoAt_renamed (playerIndex : PlayerIndex) (ability : Ability.Battle)
    (emoIndex : Nat) (renamed : Renamed naming state image) :
    Simulates (Renamed naming) (addAbilityToEmoAt env playerIndex ability state emoIndex)
      (addAbilityToEmoAt (env.withLogs isViewLogsEnabled) playerIndex ability image emoIndex) := by
  unfold addAbilityToEmoAt
  rw [renamed.boards]
  apply (getEmoMut_maps state.boards playerIndex emoIndex).bind
  intro emo
  rw [← renamed.boards]
  dsimp only [BattleEmo.renamed]
  cases addAbilityToEmo emo.attributes.abilities ability with
  | none => exact Simulates.pure renamed
  | some abilities =>
      exact Simulates.pure ((renamed.setEmo playerIndex emoIndex
        { emo with attributes := { emo.attributes with abilities } }).addLog isViewLogsEnabled _ _)

/-- A loop over indexes, each iteration of which is renamed. -/
theorem foldlM_renamed {f g : St env → Nat → Result (St env)}
    (step : ∀ {state image : St env} (emoIndex : Nat), Renamed naming state image →
      Simulates (Renamed naming) (f state emoIndex) (g image emoIndex))
    (indexes : List Nat) (renamed : Renamed naming state image) :
    Simulates (Renamed naming) (indexes.foldlM f state) (indexes.foldlM g image) := by
  have mapped := @Simulates.foldlM MtcError MtcError _ _ _ _ (Renamed naming) f g id
    (fun _ _ emoIndex renamed => step emoIndex renamed) indexes _ _ renamed
  rwa [List.map_id] at mapped

theorem increaseStats_renamed (playerIndex : PlayerIndex) (actionEmoIndex : Nat)
    (isActionEmoRetired isTripleAction : Bool) (targetOrRandom : TargetOrRandom)
    (attack health : Nat) (renamed : Renamed naming state image) :
    Simulates (Renamed naming)
      (increaseStats env playerIndex actionEmoIndex isActionEmoRetired isTripleAction
        targetOrRandom attack health state)
      (increaseStats (env.withLogs isViewLogsEnabled) playerIndex actionEmoIndex
        isActionEmoRetired isTripleAction targetOrRandom attack health image) := by
  unfold increaseStats
  rw [renamed.getBoard, renamed.rng]
  apply (getMatchedEmoIndexsFromBoardByTargetOrRandom_maps (state.getBoard playerIndex)
    actionEmoIndex targetOrRandom isActionEmoRetired state.rng).bind
  intro found
  exact foldlM_renamed (fun emoIndex renamed =>
    increaseEmoStats_renamed playerIndex _ _ emoIndex renamed) found.1 (renamed.withRng found.2)

theorem decreaseStats_renamed (playerIndex : PlayerIndex) (actionEmoIndex : Nat)
    (isActionEmoRetired isTripleAction : Bool) (targetOrRandom : TargetOrRandom)
    (attack health : Nat) (renamed : Renamed naming state image) :
    Simulates (Renamed naming)
      (decreaseStats env playerIndex actionEmoIndex isActionEmoRetired isTripleAction
        targetOrRandom attack health state)
      (decreaseStats (env.withLogs isViewLogsEnabled) playerIndex actionEmoIndex
        isActionEmoRetired isTripleAction targetOrRandom attack health image) := by
  unfold decreaseStats
  rw [renamed.getBoard, renamed.rng]
  apply (getMatchedEmoIndexsFromBoardByTargetOrRandom_maps (state.getBoard playerIndex)
    actionEmoIndex targetOrRandom isActionEmoRetired state.rng).bind
  intro found
  exact foldlM_renamed (fun emoIndex renamed =>
    decreaseEmoStats_renamed playerIndex _ _ emoIndex renamed) found.1 (renamed.withRng found.2)

theorem increaseStatsByEmoCount_renamed (playerIndex : PlayerIndex) (actionEmoIndex : Nat)
    (isActionEmoRetired isTripleAction : Bool) (targetOrRandom : TargetOrRandom) (side : Side)
    (countCondition : TypOptAndIsTripleOpt) (attack health : Nat)
    (renamed : Renamed naming state image) :
    Simulates (Renamed naming)
      (increaseStatsByEmoCount env playerIndex actionEmoIndex isActionEmoRetired isTripleAction
        targetOrRandom side countCondition attack health state)
      (increaseStatsByEmoCount (env.withLogs isViewLogsEnabled) playerIndex actionEmoIndex
        isActionEmoRetired isTripleAction targetOrRandom side countCondition attack health
        image) := by
  unfold increaseStatsByEmoCount
  rw [renamed.boards, countEmosForStats_renamed]
  exact increaseStats_renamed playerIndex actionEmoIndex isActionEmoRetired isTripleAction
    targetOrRandom _ _ renamed

theorem addBattleAbility_renamed (playerIndex : PlayerIndex) (actionEmoIndex : Nat)
    (isActionEmoRetired isTripleAction : Bool) (targetOrRandom : TargetOrRandom)
    (ability : Ability.Battle) (renamed : Renamed naming state image) :
    Simulates (Renamed naming)
      (addBattleAbility env playerIndex actionEmoIndex isActionEmoRetired isTripleAction
        targetOrRandom ability state)
      (addBattleAbility (env.withLogs isViewLogsEnabled) playerIndex actionEmoIndex
        isActionEmoRetired isTripleAction targetOrRandom ability image) := by
  cases targetOrRandom with
  | target target =>
      unfold addBattleAbility
      dsimp only
      rw [renamed.getBoard]
      apply (getMatchedEmoIndexsFromBoard_maps (state.getBoard playerIndex) actionEmoIndex target
        isActionEmoRetired).bind
      intro indexes
      exact foldlM_renamed (fun emoIndex renamed =>
        addAbilityToEmoAt_renamed playerIndex ability emoIndex renamed) indexes renamed
  | random typAndTriple count =>
      unfold addBattleAbility addBattleAbilityRandom
      dsimp only
      rw [renamed.getBoard, renamed.rng, otherEmos_renamed, filter_renamed fun _ => rfl]
      exact foldlM_renamed (fun emoIndex renamed =>
        addAbilityToEmoAt_renamed playerIndex ability emoIndex renamed) _ (renamed.withRng _)

end Changes

/-! ## Adding emos -/

section Additions

variable {state image : St env}

theorem addEmo_renamed (playerIndex : PlayerIndex) (emoIndex : Nat) (emo : BattleEmo)
    (renamed : Renamed naming state image) :
    Simulates (RenamedCalls naming) (addEmo env playerIndex emoIndex emo state)
      (addEmo (env.withLogs isViewLogsEnabled) playerIndex emoIndex (emo.renamed naming.name)
        image) := by
  unfold addEmo
  rw [renamed.boards, renamed_countBoardEmos]
  dsimp only
  split
  · apply (Maps.refl
      (ensure (emoIndex ≤ state.boards.countBoardEmos playerIndex) .invalidEmoIndex)).bind
    intro _
    have logged := renamed.addLog isViewLogsEnabled
      (.add playerIndex emoIndex emo.baseId emo.attributes)
      (.add playerIndex emoIndex (emo.renamed naming.name).baseId
        (emo.renamed naming.name).attributes)
    have added := logged.setBoard playerIndex
      (((state.addLog env (.add playerIndex emoIndex emo.baseId emo.attributes)).getBoard
        playerIndex).insertIdx emoIndex emo)
    rw [renamedBoard, List.map_insertIdx, ← renamedBoard, ← logged.getBoard] at added
    have boards := added.boards
    dsimp only at boards
    rw [boards]
    apply (getEmo_maps _ playerIndex emoIndex).bind
    intro addedEmo
    refine Simulates.pure ⟨?_, ?_⟩
    · apply filterMap_renamed
      intro entry
      dsimp only [BoardAbility.renamed]
      split
      · rfl
      · split
        · rw [apply_ite (Option.map (Task.renamed naming.name))]
          rfl
        · rfl
    · rw [← boards]
      exact added
  · exact Simulates.pure ⟨rfl, renamed⟩

theorem setEmoRival_renamed (playerIndex : PlayerIndex) (emo : BattleEmo)
    (renamed : Renamed naming state image) :
    Simulates (RenamedCalls naming) (setEmoRival env playerIndex emo state)
      (setEmoRival (env.withLogs isViewLogsEnabled) playerIndex (emo.renamed naming.name)
        image) := by
  unfold setEmoRival
  dsimp only
  rw [renamed.getBoard, renamedBoard, List.getLast?_map, List.length_map]
  cases (state.getBoard (switchPlayerIndex playerIndex)).getLast? with
  | none => exact addEmo_renamed _ _ { emo with attackAndSurvivedCount := 0 } renamed
  | some last =>
      exact addEmo_renamed _ _
        { emo with attackAndSurvivedCount := last.attackAndSurvivedCount } renamed

theorem setEmo_renamed (playerIndex : PlayerIndex) (emoIndex baseId : Nat) (isTriple : Bool)
    (attackAndSurvivedCount : Nat) (side : Side) (renamed : Renamed naming state image) :
    Simulates (RenamedCalls naming)
      (setEmo env playerIndex emoIndex baseId isTriple attackAndSurvivedCount side state)
      (setEmo (env.withLogs isViewLogsEnabled) playerIndex emoIndex baseId isTriple
        attackAndSurvivedCount side image) := by
  unfold setEmo
  apply (Maps.refl (env.emoBases.find baseId)).bind
  intro base
  have generated : Renamed naming { state with generatedIds := state.generatedIds + 1 }
      { image with generatedIds := image.generatedIds + 1 } :=
    ⟨renamed.boards, renamed.rng, renamed.generatedIds.succ⟩
  have built : BattleEmo.newWithBase image.generatedIds base isTriple =
      (BattleEmo.newWithBase state.generatedIds base isTriple).renamed naming.name := by
    rw [BattleEmo.newWithBase, newWithAttributes_renamed renamed.generatedIds]
    rfl
  rw [id, built]
  cases side with
  | ally =>
      exact addEmo_renamed playerIndex emoIndex
        { BattleEmo.newWithBase state.generatedIds base isTriple with attackAndSurvivedCount }
        generated
  | rival => exact setEmoRival_renamed playerIndex _ generated

theorem setEmosByAttackDiv_renamed (playerIndex : PlayerIndex)
    (actionEmoAttackAndSurvivedCount actionEmoAttack : Nat) (isTripleAction : Bool)
    (newEmoIndex baseId divisor : Nat) (side : Side) (renamed : Renamed naming state image) :
    Simulates (RenamedCalls naming)
      (setEmosByAttackDiv env playerIndex actionEmoAttackAndSurvivedCount actionEmoAttack
        isTripleAction newEmoIndex baseId divisor side state)
      (setEmosByAttackDiv (env.withLogs isViewLogsEnabled) playerIndex
        actionEmoAttackAndSurvivedCount actionEmoAttack isTripleAction newEmoIndex baseId divisor
        side image) := by
  unfold setEmosByAttackDiv
  apply (Maps.refl (ensure (divisor ≠ 0) .divisionByZero)).bind
  intro _
  refine Simulates.pure ⟨?_, renamed⟩
  rw [List.map_replicate]
  rfl

end Additions

/-! ## Damage and retirement -/

section Damage

variable {state image : St env}

theorem damageAll_renamed (playerIndex : PlayerIndex) (isTripleAction : Bool) (side : Side)
    (damage : Nat) (renamed : Renamed naming state image) :
    RenamedCalls naming (damageAll env playerIndex isTripleAction side damage state)
      (damageAll (env.withLogs isViewLogsEnabled) playerIndex isTripleAction side damage image) := by
  have all : ∀ playerIndex damage, RenamedCalls naming (damageAllEmos env playerIndex damage state)
      (damageAllEmos (env.withLogs isViewLogsEnabled) playerIndex damage image) := by
    intro playerIndex damage
    refine ⟨?_, renamed⟩
    rw [damageAllEmos, renamed.getBoard, renamedBoard, List.map_map, damageAllEmos, List.map_map]
    rfl
  cases side <;> exact all _ _

theorem callEmoRetireRivalAbilities_renamed (playerIndex : PlayerIndex) (retiredEmo : BattleEmo)
    (renamed : Renamed naming state image) :
    RenamedCalls naming (callEmoRetireRivalAbilities env playerIndex retiredEmo state)
      (callEmoRetireRivalAbilities (env.withLogs isViewLogsEnabled) playerIndex
        (retiredEmo.renamed naming.name) image) := by
  refine ⟨?_, renamed⟩
  dsimp only [callEmoRetireRivalAbilities]
  rw [renamed.boards]
  apply filterMap_renamed
  intro entry
  dsimp only [BoardAbility.renamed]
  split
  · rw [apply_ite (Option.map (Task.renamed naming.name))]
    rfl
  · rfl

theorem callEmoRetireBoardAbilities_renamed (playerIndex : PlayerIndex) (retiredEmoIndex : Nat)
    (retiredEmo : BattleEmo) (renamed : Renamed naming state image) :
    RenamedCalls naming
      (callEmoRetireBoardAbilities env playerIndex retiredEmoIndex retiredEmo state)
      (callEmoRetireBoardAbilities (env.withLogs isViewLogsEnabled) playerIndex retiredEmoIndex
        (retiredEmo.renamed naming.name) image) := by
  refine ⟨?_, renamed⟩
  dsimp only [callEmoRetireBoardAbilities]
  rw [renamed.boards, List.map_append]
  congr 1
  · apply filterMap_renamed
    intro entry
    dsimp only [BoardAbility.renamed]
    split
    · rw [apply_ite (Option.map (Task.renamed naming.name))]
      rfl
    · rfl
  · apply filterMap_renamed
    intro entry
    dsimp only [BoardAbility.renamed]
    split
    · rw [apply_ite (Option.map (Task.renamed naming.name))]
      rfl
    · rfl

theorem callEmoRetirePlayerAbilities_renamed (playerIndex : PlayerIndex) (retiredEmoIndex : Nat)
    (retiredEmo : BattleEmo) (renamed : Renamed naming state image) :
    Simulates (RenamedCalls naming)
      (callEmoRetirePlayerAbilities env playerIndex retiredEmoIndex retiredEmo state)
      (callEmoRetirePlayerAbilities (env.withLogs isViewLogsEnabled) playerIndex retiredEmoIndex
        (retiredEmo.renamed naming.name) image) := by
  unfold callEmoRetirePlayerAbilities
  apply (Maps.refl retiredEmo.getAbilities).bind
  intro abilities
  refine Simulates.pure ⟨?_, renamed⟩
  dsimp only
  rw [List.map_append, List.map_filterMap]
  congr 1
  apply List.filterMap_congr
  rintro ⟨abilityIndex, ability⟩ _
  cases retireAction? ability <;> rfl

theorem retireEmo_renamed (playerIndex : PlayerIndex) (emoIndex : Nat)
    (renamed : Renamed naming state image) :
    Simulates (RenamedCalls naming) (retireEmo env playerIndex emoIndex state)
      (retireEmo (env.withLogs isViewLogsEnabled) playerIndex emoIndex image) := by
  unfold retireEmo
  rw [renamed.getBoard, renamedBoard_getElem?]
  apply maps_okOr.bind
  intro removedEmo
  have removed := (renamed.setBoard playerIndex
    ((state.getBoard playerIndex).eraseIdx emoIndex)).addLog isViewLogsEnabled
      (.remove playerIndex emoIndex) (.remove playerIndex emoIndex)
  rw [renamedBoard, ← List.eraseIdx_map, ← renamedBoard] at removed
  apply (callEmoRetirePlayerAbilities_renamed playerIndex emoIndex removedEmo removed).bind
  rintro ⟨calls, after⟩ ⟨_, imageAfter⟩ ⟨rfl, renamed⟩
  refine Simulates.pure ⟨?_, renamed⟩
  dsimp only
  rw [List.map_append]
  rfl

theorem callShieldRemovedAbility_renamed (playerIndex : PlayerIndex)
    (shieldRemovedEmoIndex : Nat) (renamed : Renamed naming state image) :
    Simulates (RenamedCalls naming)
      (callShieldRemovedAbility env playerIndex shieldRemovedEmoIndex state)
      (callShieldRemovedAbility (env.withLogs isViewLogsEnabled) playerIndex
        shieldRemovedEmoIndex image) := by
  unfold callShieldRemovedAbility
  rw [renamed.boards]
  apply (getEmo_maps state.boards playerIndex shieldRemovedEmoIndex).bind
  intro shieldRemovedEmo
  refine Simulates.pure ⟨?_, renamed⟩
  apply filterMap_renamed
  intro entry
  dsimp only [BoardAbility.renamed]
  split
  · split
    · rfl
    · rw [apply_ite (Option.map (Task.renamed naming.name))]
      rfl
  · rfl

theorem removeShield_renamed (playerIndex : PlayerIndex) (emoIndex shieldAbilityIndex : Nat)
    (renamed : Renamed naming state image) :
    Simulates (RenamedCalls naming) (removeShield env playerIndex emoIndex shieldAbilityIndex state)
      (removeShield (env.withLogs isViewLogsEnabled) playerIndex emoIndex shieldAbilityIndex
        image) := by
  unfold removeShield
  rw [renamed.boards]
  apply (getEmoMut_maps state.boards playerIndex emoIndex).bind
  intro emo
  apply (Maps.refl (okOr emo.attributes.abilities[shieldAbilityIndex]? .indexOutOfBounds)).bind
  intro ability
  dsimp only
  rw [← renamed.boards]
  apply (Maps.refl (okOr (battleAbility? ability) .shouldBeBattleAbility)).bind
  intro battleAbility
  exact callShieldRemovedAbility_renamed playerIndex emoIndex
    ((renamed.setEmo playerIndex emoIndex { emo with attributes := { emo.attributes with
      abilities := emo.attributes.abilities.eraseIdx shieldAbilityIndex } }).addLog
        isViewLogsEnabled _ _)

/-- The survival of a damaged emo, and the calls and the state under other ids. -/
def RenamedDamage {sampler : Sampler} (naming : Naming)
    (damaged image : Bool × List Task × BattleState sampler) : Prop :=
  image.1 = damaged.1 ∧ RenamedCalls naming damaged.2 image.2

theorem damageEmo_renamed (damage : Nat) (playerIndex : PlayerIndex) (emoIndex : Nat)
    (renamed : Renamed naming state image) :
    Simulates (RenamedDamage naming) (damageEmo env damage playerIndex emoIndex state)
      (damageEmo (env.withLogs isViewLogsEnabled) damage playerIndex emoIndex image) := by
  have shield : Simulates (Option.Rel (RenamedCalls naming))
      (removeShieldIfExist env playerIndex emoIndex state)
      (removeShieldIfExist (env.withLogs isViewLogsEnabled) playerIndex emoIndex image) := by
    unfold removeShieldIfExist
    rw [renamed.boards]
    apply (getEmo_maps state.boards playerIndex emoIndex).bind
    intro emo
    apply (Maps.refl emo.getAbilities).bind
    intro abilities
    dsimp only [id]
    cases abilities.find? _ with
    | none => exact Simulates.pure .none
    | some found =>
        exact Simulates.map (removeShield_renamed playerIndex emoIndex found.1 renamed)
          fun _ _ calls => Option.Rel.some calls
  unfold damageEmo
  apply shield.bind
  rintro _ _ (⟨calls⟩ | _)
  · exact Simulates.pure ⟨rfl, calls⟩
  · dsimp only
    split
    · exact Simulates.pure ⟨rfl, rfl, renamed⟩
    · rw [renamed.boards]
      apply (getEmoMut_maps state.boards playerIndex emoIndex).bind
      intro emo
      dsimp only [BattleEmo.renamed]
      split
      · refine Simulates.bind (retireEmo_renamed playerIndex emoIndex
          (renamed.addLog isViewLogsEnabled _ _)) ?_
        exact fun _ _ calls => Simulates.pure ⟨rfl, calls⟩
      · exact Simulates.pure ⟨rfl, rfl, (renamed.addLog isViewLogsEnabled _ _).setEmo _ _
          { emo with attributes :=
            { emo.attributes with health := emo.attributes.health - damage } }⟩

end Damage

/-! ## Abilities -/

section Abilities

variable {state image : St env}

theorem getActionEmo_maps (playerIndex : PlayerIndex) (emoIndex : Nat)
    (retiredEmoOpt : Option BattleEmo) (renamed : Renamed naming state image) :
    Maps (BattleEmo.renamed naming.name) (getActionEmo env playerIndex emoIndex retiredEmoOpt state)
      (getActionEmo (env.withLogs isViewLogsEnabled) playerIndex emoIndex
        (retiredEmoOpt.map (BattleEmo.renamed naming.name)) image) := by
  cases retiredEmoOpt with
  | none =>
      dsimp only [getActionEmo, Option.map_none]
      rw [renamed.boards]
      exact getEmo_maps state.boards playerIndex emoIndex
  | some retiredEmo => exact Maps.pure _ retiredEmo

theorem callAbilityNormalAction_renamed (playerIndex : PlayerIndex) (action : NormalAction)
    (actionEmoIndex : Nat) (retiredActionEmoOpt : Option BattleEmo) (isTripleAction : Bool)
    (renamed : Renamed naming state image) :
    Simulates (RenamedCalls naming)
      (callAbilityNormalAction env playerIndex action actionEmoIndex retiredActionEmoOpt
        isTripleAction state)
      (callAbilityNormalAction (env.withLogs isViewLogsEnabled) playerIndex action actionEmoIndex
        (retiredActionEmoOpt.map (BattleEmo.renamed naming.name)) isTripleAction image) := by
  have changed : ∀ {performed performedImage : Result (St env)},
      Simulates (Renamed naming) performed performedImage →
      Simulates (RenamedCalls naming) (do let state ← performed; return ([], state))
        (do let state ← performedImage; return ([], state)) :=
    fun simulates => simulates.bind fun _ _ renamed => Simulates.pure ⟨rfl, renamed⟩
  unfold callAbilityNormalAction
  apply (getActionEmo_maps playerIndex actionEmoIndex retiredActionEmoOpt renamed).bind
  intro actionEmo
  rw [Option.isSome_map]
  cases action with
  | setEmo side baseId => exact setEmo_renamed _ _ _ _ _ _ renamed
  | setEmosByAttackDiv side baseId divisor =>
      exact setEmosByAttackDiv_renamed _ _ _ _ _ _ _ _ renamed
  | increaseStats targetOrRandom attack health =>
      exact changed (increaseStats_renamed _ _ _ _ _ _ _ renamed)
  | decreaseStats targetOrRandom attack health =>
      exact changed (decreaseStats_renamed _ _ _ _ _ _ _ renamed)
  | increaseStatsByEmoCount side targetOrRandom countCondition attack health =>
      exact changed (increaseStatsByEmoCount_renamed _ _ _ _ _ _ _ _ _ renamed)
  | addBattleAbility targetOrRandom ability =>
      exact changed (addBattleAbility_renamed _ _ _ _ _ _ renamed)
  | damageAll side damage => exact Simulates.pure (damageAll_renamed _ _ _ _ renamed)

theorem callAbilityNormalActionAsOneself_renamed (playerIndex : PlayerIndex)
    (action : NormalAction) (actionEmoIndex : Nat) (retiredActionEmoOpt : Option BattleEmo)
    (renamed : Renamed naming state image) :
    Simulates (RenamedCalls naming)
      (callAbilityNormalActionAsOneself env playerIndex action actionEmoIndex retiredActionEmoOpt
        state)
      (callAbilityNormalActionAsOneself (env.withLogs isViewLogsEnabled) playerIndex action
        actionEmoIndex (retiredActionEmoOpt.map (BattleEmo.renamed naming.name)) image) := by
  unfold callAbilityNormalActionAsOneself
  apply (getActionEmo_maps playerIndex actionEmoIndex retiredActionEmoOpt renamed).bind
  exact fun actionEmo => callAbilityNormalAction_renamed _ _ _ _ _ renamed

theorem callAbilityGeneralAsAllyAction_renamed (playerIndex : PlayerIndex)
    (action : GeneralAsAllyAction) (allyEmoIndex : Nat) (retiredAllyEmoOpt : Option BattleEmo)
    (oneselfEmoIndex : Nat) (renamed : Renamed naming state image) :
    Simulates (RenamedCalls naming)
      (callAbilityGeneralAsAllyAction env playerIndex action allyEmoIndex retiredAllyEmoOpt
        oneselfEmoIndex state)
      (callAbilityGeneralAsAllyAction (env.withLogs isViewLogsEnabled) playerIndex action
        allyEmoIndex (retiredAllyEmoOpt.map (BattleEmo.renamed naming.name)) oneselfEmoIndex
        image) := by
  cases action with
  | oneselfTripleNormal normalAction =>
      unfold callAbilityGeneralAsAllyAction
      dsimp only
      rw [renamed.boards]
      apply (getEmo_maps state.boards playerIndex oneselfEmoIndex).bind
      exact fun oneselfEmo => callAbilityNormalAction_renamed _ _ _ _ _ renamed
  | custom asAllyAction =>
      cases asAllyAction with
      | triggerRetireActions =>
          unfold callAbilityGeneralAsAllyAction callAbilityAsAllyAction
          apply (getActionEmo_maps playerIndex allyEmoIndex retiredAllyEmoOpt renamed).bind
          intro allyEmo
          rw [renamed.boards]
          apply (getEmo_maps state.boards playerIndex oneselfEmoIndex).bind
          intro oneselfEmo
          apply (Maps.refl allyEmo.getAbilities).bind
          intro abilities
          refine Simulates.pure ⟨?_, renamed⟩
          dsimp only
          rw [List.map_flatMap]
          congr 1
          funext entry
          cases retireAction? entry.2 with
          | none => rfl
          | some action =>
              dsimp only
              rw [List.map_replicate]
              rfl

theorem callShieldRemovedAbilityOf_renamed (playerIndex : PlayerIndex) (action : NormalAction)
    (emoIndex : Nat) (excludesSameBase : Bool) (shieldRemovedEmoBaseId : Nat)
    (renamed : Renamed naming state image) :
    Simulates (RenamedCalls naming)
      (callShieldRemovedAbilityOf env playerIndex action emoIndex excludesSameBase
        shieldRemovedEmoBaseId state)
      (callShieldRemovedAbilityOf (env.withLogs isViewLogsEnabled) playerIndex action emoIndex
        excludesSameBase shieldRemovedEmoBaseId image) := by
  have called := @callAbilityNormalActionAsOneself_renamed env isViewLogsEnabled naming state
    image playerIndex action emoIndex none renamed
  unfold callShieldRemovedAbilityOf
  cases excludesSameBase with
  | false => exact called
  | true =>
      dsimp only
      rw [if_pos rfl, if_pos rfl, renamed.boards]
      apply (getEmo_maps state.boards playerIndex emoIndex).bind
      intro emo
      dsimp only [BattleEmo.renamed]
      split
      · exact Simulates.pure ⟨rfl, renamed⟩
      · exact called

theorem callPreAbilitiesOf_renamed (playerIndex : PlayerIndex)
    (renamed : Renamed naming state image) :
    RenamedCalls naming (callPreAbilitiesOf env playerIndex state)
      (callPreAbilitiesOf (env.withLogs isViewLogsEnabled) playerIndex image) := by
  refine ⟨?_, renamed⟩
  dsimp only [callPreAbilitiesOf]
  rw [renamed.boards]
  apply filterMap_renamed
  intro entry
  dsimp only [BoardAbility.renamed]
  split <;> rfl

end Abilities

/-! ## Attacks -/

section Attacks

variable {state image : St env}

theorem getAttackEmoIndexFrom_renamed {name : Nat → Nat} (entries : List (BattleEmo × Nat))
    (index minAttackAndSurvivedCount : Nat) :
    getAttackEmoIndexFrom index minAttackAndSurvivedCount
        (entries.map (Prod.map (BattleEmo.renamed name) id)) =
      getAttackEmoIndexFrom index minAttackAndSurvivedCount entries := by
  induction entries generalizing index minAttackAndSurvivedCount with
  | nil => rfl
  | cons entry rest ih =>
      simp only [List.map_cons, Prod.map, BattleEmo.renamed, getAttackEmoIndexFrom, id]
      split
      · exact ih _ _
      · exact ih _ _

theorem getAttackEmoIndex_renamed {name : Nat → Nat} (board : List BattleEmo) :
    Maps id (getAttackEmoIndex board) (getAttackEmoIndex (renamedBoard name board)) := by
  unfold getAttackEmoIndex
  rw [renamedBoard_getElem?]
  apply maps_okOr.bind
  intro first
  apply Simulates.pure
  rw [renamedBoard_zipIdx, ← List.map_drop, getAttackEmoIndexFrom_renamed]
  rfl

theorem getLowestAttackEmoIndexesFrom_renamed {name : Nat → Nat}
    (entries : List (BattleEmo × Nat)) (lowestAttackEmoIndexes : List Nat) (lowestAttack : Nat) :
    getLowestAttackEmoIndexesFrom lowestAttackEmoIndexes lowestAttack
        (entries.map (Prod.map (BattleEmo.renamed name) id)) =
      getLowestAttackEmoIndexesFrom lowestAttackEmoIndexes lowestAttack entries := by
  induction entries generalizing lowestAttackEmoIndexes lowestAttack with
  | nil => rfl
  | cons entry rest ih =>
      simp only [List.map_cons, Prod.map, getLowestAttackEmoIndexesFrom, id]
      exact ih _ _

theorem getLowestAttackEmoIndex_maps {name : Nat → Nat} (board : List BattleEmo)
    (rng : env.sampler.Rng) :
    Maps id (getLowestAttackEmoIndex env board rng)
      (getLowestAttackEmoIndex (env.withLogs isViewLogsEnabled) (renamedBoard name board) rng) := by
  unfold getLowestAttackEmoIndex
  rw [renamedBoard_getElem?]
  apply maps_okOr.bind
  intro first
  rw [renamedBoard_zipIdx, ← List.map_drop, getLowestAttackEmoIndexesFrom_renamed]
  exact Maps.refl _

theorem getDefenseEmoIndex_maps {name : Nat → Nat} (board : List BattleEmo)
    (isLowestAttack : Bool) (rng : env.sampler.Rng) :
    Maps id (getDefenseEmoIndex env board isLowestAttack rng)
      (getDefenseEmoIndex (env.withLogs isViewLogsEnabled) (renamedBoard name board)
        isLowestAttack rng) := by
  have attractive : getAttractiveEmoIndex (env.withLogs isViewLogsEnabled)
      (renamedBoard name board) rng = getAttractiveEmoIndex env board rng := by
    unfold getAttractiveEmoIndex
    rw [renamedBoard_zipIdx, filter_renamed fun _ => rfl]
  cases isLowestAttack with
  | true => exact getLowestAttackEmoIndex_maps board rng
  | false =>
      unfold getDefenseEmoIndex
      simp only [Bool.false_eq_true, if_false]
      rw [attractive, renamedBoard_length]
      rcases getAttractiveEmoIndex env board rng with ⟨_ | attractiveEmoIndex, rng⟩
      · exact Maps.refl _
      · exact Maps.refl _

theorem attack_renamed (attackPlayerIndex : PlayerIndex) (renamed : Renamed naming state image) :
    Simulates (RenamedCalls naming) (attack env attackPlayerIndex state)
      (attack (env.withLogs isViewLogsEnabled) attackPlayerIndex image) := by
  have indexes : Simulates (fun found imageFound => imageFound.1 = found.1 ∧
        imageFound.2.1 = found.2.1 ∧ Renamed naming found.2.2 imageFound.2.2)
      (getAttackAndDefenseEmoIndexes env attackPlayerIndex state)
      (getAttackAndDefenseEmoIndexes (env.withLogs isViewLogsEnabled) attackPlayerIndex image) := by
    unfold getAttackAndDefenseEmoIndexes
    dsimp only
    rw [renamed.getBoard, renamed.getBoard, renamed.rng, renamed.boards]
    apply (getAttackEmoIndex_renamed (state.getBoard attackPlayerIndex)).bind
    intro attackEmoIndex
    apply (getEmo_maps state.boards attackPlayerIndex attackEmoIndex).bind
    intro attackEmo
    apply (Maps.refl attackEmo.getAbilities).bind
    intro abilities
    refine Maps.bind (getDefenseEmoIndex_maps
      (state.getBoard (switchPlayerIndex attackPlayerIndex)) _ state.rng) ?_
    intro defense
    rw [← renamed.boards]
    exact Simulates.pure ⟨rfl, rfl, renamed.withRng defense.2⟩
  unfold attack
  apply indexes.bind
  rintro ⟨attackEmoIndex, defenseEmoIndex, state⟩ ⟨_, _, image⟩ ⟨rfl, rfl, renamed⟩
  exact Simulates.pure ⟨rfl, renamed.addLog isViewLogsEnabled _ _⟩

theorem attackDamage_renamed (attackPlayerIndex : PlayerIndex)
    (attackEmoIndex defenseEmoIndex : Nat) (renamed : Renamed naming state image) :
    Simulates (RenamedCalls naming)
      (attackDamage env attackPlayerIndex attackEmoIndex defenseEmoIndex state)
      (attackDamage (env.withLogs isViewLogsEnabled) attackPlayerIndex attackEmoIndex
        defenseEmoIndex image) := by
  unfold attackDamage
  dsimp only
  rw [renamed.boards]
  apply (getEmo_maps state.boards attackPlayerIndex attackEmoIndex).bind
  intro attackEmo
  apply (getEmo_maps state.boards (switchPlayerIndex attackPlayerIndex) defenseEmoIndex).bind
  intro defenseEmo
  refine Simulates.bind (damageEmo_renamed attackEmo.attributes.attack _ _ renamed) ?_
  rintro ⟨_, calls, after⟩ ⟨_, _, imageAfter⟩ ⟨_, rfl, renamed⟩
  refine Simulates.pure ⟨?_, renamed⟩
  dsimp only
  rw [List.map_append]
  rfl

theorem attackDamageCounter_renamed (attackPlayerIndex : PlayerIndex)
    (attackEmoIndex defenseEmoAttack attackEmoId : Nat) (renamed : Renamed naming state image) :
    Simulates (RenamedCalls naming)
      (attackDamageCounter env attackPlayerIndex attackEmoIndex defenseEmoAttack attackEmoId state)
      (attackDamageCounter (env.withLogs isViewLogsEnabled) attackPlayerIndex attackEmoIndex
        defenseEmoAttack (naming.name attackEmoId) image) := by
  unfold attackDamageCounter
  rw [renamed.boards, renamed_hasEmoAtIndex]
  split
  · refine Simulates.bind (damageEmo_renamed defenseEmoAttack _ _ renamed) ?_
    rintro ⟨survived, calls, after⟩ ⟨imageSurvived, imageCalls, imageAfter⟩
      ⟨same, sameCalls, renamed⟩
    dsimp only at same sameCalls
    subst same sameCalls
    cases imageSurvived with
    | false => exact Simulates.pure ⟨rfl, renamed⟩
    | true =>
        refine Simulates.pure ⟨?_, renamed⟩
        dsimp only
        rw [List.map_append]
        rfl
  · exact Simulates.pure ⟨rfl, renamed⟩

theorem countAttackAndSurvived_renamed (attackPlayerIndex : PlayerIndex) (attackEmoIndex : Nat)
    (renamed : Renamed naming state image) :
    Simulates (RenamedCalls naming)
      (countAttackAndSurvived env attackPlayerIndex attackEmoIndex state)
      (countAttackAndSurvived (env.withLogs isViewLogsEnabled) attackPlayerIndex attackEmoIndex
        image) := by
  unfold countAttackAndSurvived
  rw [renamed.boards]
  apply (getEmoMut_maps state.boards attackPlayerIndex attackEmoIndex).bind
  intro emo
  apply (Maps.refl (addU8 emo.attackAndSurvivedCount 1)).bind
  intro attackAndSurvivedCount
  rw [← renamed.boards]
  exact Simulates.pure
    ⟨rfl, renamed.setEmo attackPlayerIndex attackEmoIndex { emo with attackAndSurvivedCount }⟩

end Attacks

/-! ## The march -/

section March

variable {state image : St env}

theorem sumGrades_renamed {name : Nat → Nat} (board : List BattleEmo) :
    sumGrades (env.withLogs isViewLogsEnabled) (renamedBoard name board) =
      sumGrades env board := by
  rw [sumGrades, renamedBoard, List.foldlM_map]
  rfl

theorem getRemainingGradesIfFinished_renamed {name : Nat → Nat} (boards : BattleBoards) :
    getRemainingGradesIfFinished (env.withLogs isViewLogsEnabled) (boards.renamed name) =
      getRemainingGradesIfFinished env boards := by
  simp only [getRemainingGradesIfFinished, renamed_isEmptyBoard, renamed_getBoard,
    sumGrades_renamed]

/-- Under other ids a task does the same. -/
theorem perform_renamed (task : Task) (renamed : Renamed naming state image) :
    Simulates (RenamedCalls naming) (perform env task state)
      (perform (env.withLogs isViewLogsEnabled) (task.renamed naming.name) image) := by
  cases task with
  | callPreAbilitiesOf playerIndex =>
      exact Simulates.pure (callPreAbilitiesOf_renamed playerIndex renamed)
  | attack attackPlayerIndex => exact attack_renamed attackPlayerIndex renamed
  | attackDamage attackPlayerIndex attackEmoIndex defenseEmoIndex =>
      exact attackDamage_renamed attackPlayerIndex attackEmoIndex defenseEmoIndex renamed
  | attackDamageCounter attackPlayerIndex attackEmoIndex defenseEmoAttack attackEmoId =>
      exact attackDamageCounter_renamed attackPlayerIndex attackEmoIndex defenseEmoAttack
        attackEmoId renamed
  | countAttackAndSurvived attackPlayerIndex attackEmoIndex attackEmoId =>
      exact countAttackAndSurvived_renamed attackPlayerIndex attackEmoIndex renamed
  | callAbilityNormalActionAsOneself playerIndex action actionEmoIndex retiredActionEmoOpt
      ownerId =>
      exact callAbilityNormalActionAsOneself_renamed playerIndex action actionEmoIndex
        retiredActionEmoOpt renamed
  | callAbilityGeneralAsAllyAction playerIndex action allyEmoIndex retiredAllyEmoOpt
      oneselfEmoIndex ownerId =>
      exact callAbilityGeneralAsAllyAction_renamed playerIndex action allyEmoIndex
        retiredAllyEmoOpt oneselfEmoIndex renamed
  | callShieldRemovedAbilityOf playerIndex action emoIndex excludesSameBase
      shieldRemovedEmoBaseId ownerId =>
      exact callShieldRemovedAbilityOf_renamed playerIndex action emoIndex excludesSameBase
        shieldRemovedEmoBaseId renamed
  | callEmoRetireBoardAbilities playerIndex retiredEmoIndex retiredEmo =>
      exact Simulates.pure (callEmoRetireBoardAbilities_renamed playerIndex retiredEmoIndex
        retiredEmo renamed)
  | callEmoRetireRivalAbilities playerIndex retiredEmo =>
      exact Simulates.pure (callEmoRetireRivalAbilities_renamed playerIndex retiredEmo renamed)
  | setEmo playerIndex emoIndex baseId isTriple attackAndSurvivedCount side =>
      exact setEmo_renamed playerIndex emoIndex baseId isTriple attackAndSurvivedCount side
        renamed
  | damageAllEmosOf playerIndex damage emoId =>
      dsimp only [perform, Task.renamed]
      rw [renamed.boards, renamed_findEmoIndexById naming.injective]
      cases state.boards.findEmoIndexById playerIndex emoId with
      | none => exact Simulates.pure ⟨rfl, renamed⟩
      | some emoIndex =>
          exact Simulates.map (damageEmo_renamed damage playerIndex emoIndex renamed)
            fun _ _ damaged => damaged.2
  | marchBegin tick =>
      dsimp only [perform, Task.renamed, marchBegin]
      rw [renamed.boards, getRemainingGradesIfFinished_renamed]
      apply (Maps.refl (getRemainingGradesIfFinished env state.boards)).bind
      intro finished
      cases finished with
      | none => exact Simulates.pure ⟨rfl, renamed⟩
      | some grades => exact Simulates.pure ⟨rfl, renamed⟩
  | marchLoop tick => exact Simulates.pure ⟨rfl, renamed⟩
  | marchNext tick =>
      dsimp only [perform, Task.renamed, marchNext]
      rw [renamed.boards, getRemainingGradesIfFinished_renamed]
      apply (Maps.refl (getRemainingGradesIfFinished env state.boards)).bind
      intro finished
      cases finished with
      | none =>
          apply (Maps.refl tick.next).bind
          exact fun next => Simulates.pure ⟨rfl, renamed⟩
      | some grades => exact Simulates.pure ⟨rfl, renamed⟩

theorem getFirstAttackPlayerIndex_renamed {name : Nat → Nat} (boards : BattleBoards)
    (rng : env.sampler.Rng) :
    getFirstAttackPlayerIndex (env.withLogs isViewLogsEnabled) (boards.renamed name) rng =
      getFirstAttackPlayerIndex env boards rng := by
  rw [getFirstAttackPlayerIndex, renamed_countBoardEmos, renamed_countBoardEmos,
    getFirstAttackPlayerIndex]

/-- Under other ids a march leaves the same grades. -/
theorem march_renamed {fuel seed generatedIds imageIds grades0 grades1 : Nat}
    {battleEmos0 battleEmos1 : List BattleEmo} {last : St env}
    (together : naming.Together generatedIds imageIds)
    (marched : march env fuel battleEmos0 battleEmos1 seed generatedIds =
      pure (grades0, grades1, last)) :
    ∃ lastImage, march (env.withLogs isViewLogsEnabled) fuel (renamedBoard naming.name battleEmos0)
        (renamedBoard naming.name battleEmos1) seed imageIds =
          pure (grades0, grades1, lastImage) ∧ Renamed naming last lastImage := by
  simp only [march, Fueled.bind_eq_pure_iff, Fueled.of_eq_pure_iff, okOr_eq_ok_iff,
    Fueled.pure_eq_pure_iff] at marched ⊢
  obtain ⟨after, executed, finished, remaining, ⟨left, right⟩, rfl, same⟩ := marched
  cases same
  let boards : BattleBoards := { board0 := battleEmos0, board1 := battleEmos1 }
  have first := @getFirstAttackPlayerIndex_renamed env isViewLogsEnabled naming.name boards
    (env.sampler.seedFromU64 seed)
  have opened : Renamed naming (marchStart env battleEmos0 battleEmos1 seed generatedIds).state
      (marchStart (env.withLogs isViewLogsEnabled) (renamedBoard naming.name battleEmos0)
        (renamedBoard naming.name battleEmos1) seed imageIds).state :=
    ⟨rfl, congrArg Prod.snd first, together⟩
  have stack : (marchStart (env.withLogs isViewLogsEnabled) (renamedBoard naming.name battleEmos0)
      (renamedBoard naming.name battleEmos1) seed imageIds).stack =
        (marchStart env battleEmos0 battleEmos1 seed generatedIds).stack.map
          (Task.renamed naming.name) := by
    have same : (getFirstAttackPlayerIndex (env.withLogs isViewLogsEnabled)
        (boards.renamed naming.name) (env.sampler.seedFromU64 seed)).1 =
          (getFirstAttackPlayerIndex env boards (env.sampler.seedFromU64 seed)).1 :=
      congrArg Prod.fst first
    exact congrArg (fun player => callPreAbilities player ++ [.marchBegin (Tick.new player)]) same
  have step : ∀ {task calls} {state image after : St env}, Renamed naming state image → True →
      perform env task state = .ok (calls, after) →
        ∃ imageAfter, perform (env.withLogs isViewLogsEnabled) (task.renamed naming.name) image =
          .ok (calls.map (Task.renamed naming.name), imageAfter) ∧
            Renamed naming after imageAfter := by
    intro task calls state image after renamed _ performed
    obtain ⟨⟨_, imageAfter⟩, reached, rfl, renamed⟩ :=
      @perform_renamed _ isViewLogsEnabled _ _ _ task renamed (calls, after) performed
    exact ⟨imageAfter, reached, renamed⟩
  obtain ⟨lastImage, reached, renamed⟩ :=
    run_simulates (fun _ bounded => bounded) step opened trivial executed
  rw [← stack] at reached
  refine ⟨lastImage, ⟨lastImage, reached, _, ?_, (left, right), rfl, rfl⟩, renamed⟩
  rw [renamed.boards, getRemainingGradesIfFinished_renamed, remaining]

end March

/-! ## The battles of a turn -/

section Battles

theorem buildBattleEmos_renamed {entries : List (Nat × Attributes)}
    {generatedIds imageIds last : Nat} {emos : List BattleEmo}
    (together : naming.Together generatedIds imageIds)
    (built : buildBattleEmos env entries generatedIds = .ok (emos, last)) :
    ∃ imageLast, buildBattleEmos (env.withLogs isViewLogsEnabled) entries imageIds =
        .ok (renamedBoard naming.name emos, imageLast) ∧ naming.Together last imageLast := by
  induction entries generalizing generatedIds imageIds emos last with
  | nil =>
      cases built
      exact ⟨imageIds, rfl, together⟩
  | cons entry rest ih =>
      simp only [buildBattleEmos, Result.bind_eq_ok_iff, Result.pure_eq_ok_iff, Prod.mk.injEq]
        at built
      obtain ⟨base, found, ⟨others, last⟩, builtRest, rfl, rfl⟩ := built
      obtain ⟨imageLast, builtImage, together'⟩ := ih together.succ builtRest
      refine ⟨imageLast, ?_, together'⟩
      simp only [buildBattleEmos, found, builtImage, newWithAttributes_renamed together]
      rfl

variable {fuel seed generatedIds imageIds : Nat}

theorem marchPvg_renamed {board : Board} {ghostBoard : GhostBoard} {grades0 grades1 : Nat}
    {last : St env} (together : naming.Together generatedIds imageIds)
    (marched : marchPvg env fuel board ghostBoard seed generatedIds =
      pure (grades0, grades1, last)) :
    ∃ lastImage, marchPvg (env.withLogs isViewLogsEnabled) fuel board ghostBoard seed imageIds =
      pure (grades0, grades1, lastImage) ∧ Renamed naming last lastImage := by
  simp only [marchPvg, Fueled.bind_eq_pure_iff, Fueled.of_eq_pure_iff] at marched ⊢
  obtain ⟨⟨emos0, ids0⟩, built0, ⟨emos1, ids1⟩, built1, marched⟩ := marched
  obtain ⟨image0, builtImage0, together⟩ := buildBattleEmos_renamed together built0
  obtain ⟨image1, builtImage1, together⟩ := buildBattleEmos_renamed together built1
  obtain ⟨lastImage, marchedImage, renamed⟩ :=
    @march_renamed _ isViewLogsEnabled _ _ _ _ _ _ _ _ _ _ together marched
  exact ⟨lastImage, ⟨_, builtImage0, _, builtImage1, marchedImage⟩, renamed⟩

theorem marchGvg_renamed {ghostBoard0 ghostBoard1 : GhostBoard} {grades0 grades1 : Nat}
    {last : St env} (together : naming.Together generatedIds imageIds)
    (marched : marchGvg env fuel ghostBoard0 ghostBoard1 seed generatedIds =
      pure (grades0, grades1, last)) :
    ∃ lastImage, marchGvg (env.withLogs isViewLogsEnabled) fuel ghostBoard0 ghostBoard1 seed
      imageIds = pure (grades0, grades1, lastImage) ∧ Renamed naming last lastImage := by
  simp only [marchGvg, Fueled.bind_eq_pure_iff, Fueled.of_eq_pure_iff] at marched ⊢
  obtain ⟨⟨emos0, ids0⟩, built0, ⟨emos1, ids1⟩, built1, marched⟩ := marched
  obtain ⟨image0, builtImage0, together⟩ := buildBattleEmos_renamed together built0
  obtain ⟨image1, builtImage1, together⟩ := buildBattleEmos_renamed together built1
  obtain ⟨lastImage, marchedImage, renamed⟩ :=
    @march_renamed _ isViewLogsEnabled _ _ _ _ _ _ _ _ _ _ together marched
  exact ⟨lastImage, ⟨_, builtImage0, _, builtImage1, marchedImage⟩, renamed⟩

theorem battlePvg_renamed {grade health turn healthAfter last : Nat} {board : Board}
    {ghostState ghostAfter : GhostState} {ghostHistory : List GradeAndGhostBoard}
    (together : naming.Together generatedIds imageIds)
    (battled : battlePvg env fuel grade health board ghostState ghostHistory turn seed
      generatedIds = pure (healthAfter, ghostAfter, last)) :
    ∃ imageLast, battlePvg (env.withLogs isViewLogsEnabled) fuel grade health board ghostState
      ghostHistory turn seed imageIds = pure (healthAfter, ghostAfter, imageLast) ∧
        naming.Together last imageLast := by
  simp only [battlePvg, Fueled.bind_eq_pure_iff, Fueled.of_eq_pure_iff, Fueled.pure_eq_pure_iff,
    Prod.mk.injEq] at battled ⊢
  obtain ⟨ghostBoard, selected, ⟨grades0, grades1, state⟩, marched, _, ghost, _, player, rfl, rfl,
    rfl⟩ := battled
  obtain ⟨lastImage, marchedImage, renamed⟩ :=
    @marchPvg_renamed _ isViewLogsEnabled _ _ _ _ _ _ _ _ _ _ together marched
  exact ⟨lastImage.generatedIds, ⟨ghostBoard, selected, _, marchedImage, _, ghost, _, player, rfl,
    rfl, rfl⟩, renamed.generatedIds⟩

theorem battleGvg_renamed {turn last : Nat}
    {ghost0State ghost1State ghost0After ghost1After : GhostState}
    {ghost0History ghost1History : List GradeAndGhostBoard}
    (together : naming.Together generatedIds imageIds)
    (battled : battleGvg env fuel ghost0State ghost0History ghost1State ghost1History turn seed
      generatedIds = pure (ghost0After, ghost1After, last)) :
    ∃ imageLast, battleGvg (env.withLogs isViewLogsEnabled) fuel ghost0State ghost0History
      ghost1State ghost1History turn seed imageIds = pure (ghost0After, ghost1After, imageLast) ∧
        naming.Together last imageLast := by
  simp only [battleGvg, Fueled.bind_eq_pure_iff, Fueled.of_eq_pure_iff, Fueled.pure_eq_pure_iff,
    Prod.mk.injEq] at battled ⊢
  obtain ⟨board0, selected0, board1, selected1, ⟨grades0, grades1, state⟩, marched, _, ghost0, _,
    ghost1, rfl, rfl, rfl⟩ := battled
  obtain ⟨lastImage, marchedImage, renamed⟩ :=
    @marchGvg_renamed _ isViewLogsEnabled _ _ _ _ _ _ _ _ _ _ together marched
  exact ⟨lastImage.generatedIds, ⟨board0, selected0, board1, selected1, _, marchedImage, _, ghost0,
    _, ghost1, rfl, rfl, rfl⟩, renamed.generatedIds⟩

variable {board : Board} {grade health turn healthAfter last : Nat} {ghosts : List Ghost}
variable {ghostStates statesAfter : List GhostState}

theorem battlePvgAndGvg_renamed {battleGhostIndex : Nat}
    (together : naming.Together generatedIds imageIds)
    (battled : battlePvgAndGvg env fuel board grade health ghosts ghostStates battleGhostIndex turn
      seed generatedIds = pure (healthAfter, statesAfter, last)) :
    ∃ imageLast, battlePvgAndGvg (env.withLogs isViewLogsEnabled) fuel board grade health ghosts
      ghostStates battleGhostIndex turn seed imageIds = pure (healthAfter, statesAfter, imageLast) ∧
        naming.Together last imageLast := by
  simp only [battlePvgAndGvg, Fueled.bind_eq_pure_iff, Fueled.of_eq_pure_iff] at battled ⊢
  obtain ⟨sets, swapped, battled⟩ := battled
  rcases sets with _ | ⟨⟨ghost0, state0, place0⟩, _ | ⟨⟨ghost1, state1, place1⟩, _ |
    ⟨⟨ghost2, state2, place2⟩, others⟩⟩⟩
  · cases battled
  · cases battled
  · cases battled
  simp only [Fueled.bind_eq_pure_iff, Fueled.pure_eq_pure_iff, Prod.mk.injEq] at battled
  obtain ⟨⟨healthAfter, state0, ids0⟩, pvg, ⟨state1, state2, ids1⟩, gvg, rfl, rfl, rfl⟩ := battled
  obtain ⟨image0, pvgImage, together⟩ :=
    @battlePvg_renamed _ isViewLogsEnabled _ _ _ _ _ _ _ _ _ _ _ _ _ _ together pvg
  obtain ⟨image1, gvgImage, together⟩ :=
    @battleGvg_renamed _ isViewLogsEnabled _ _ _ _ _ _ _ _ _ _ _ _ _ together gvg
  refine ⟨image1, ⟨_, swapped, ?_⟩, together⟩
  simp only [Fueled.bind_eq_pure_iff, Fueled.pure_eq_pure_iff, Prod.mk.injEq]
  exact ⟨_, pvgImage, _, gvgImage, rfl, rfl, rfl⟩

theorem battleLastGhost_renamed (together : naming.Together generatedIds imageIds)
    (battled : battleLastGhost env fuel board grade health ghosts ghostStates turn seed
      generatedIds = pure (healthAfter, statesAfter, last)) :
    ∃ imageLast, battleLastGhost (env.withLogs isViewLogsEnabled) fuel board grade health ghosts
      ghostStates turn seed imageIds = pure (healthAfter, statesAfter, imageLast) ∧
        naming.Together last imageLast := by
  simp only [battleLastGhost, Fueled.bind_eq_pure_iff, Fueled.of_eq_pure_iff,
    Fueled.pure_eq_pure_iff, Prod.mk.injEq] at battled ⊢
  obtain ⟨found, selected, ghost, listed, ⟨healthAfter, ghostState, ids⟩, pvg, rfl, rfl, rfl⟩ :=
    battled
  obtain ⟨image, pvgImage, together⟩ :=
    @battlePvg_renamed _ isViewLogsEnabled _ _ _ _ _ _ _ _ _ _ _ _ _ _ together pvg
  exact ⟨image, ⟨found, selected, ghost, listed, _, pvgImage, rfl, rfl, rfl⟩, together⟩

theorem battleAll_renamed {battleGhostIndex : Nat} {finalPlace : Option Nat}
    (together : naming.Together generatedIds imageIds)
    (battled : battleAll env fuel board health ghostStates grade ghosts battleGhostIndex turn seed
      generatedIds = pure (finalPlace, healthAfter, statesAfter, last)) :
    ∃ imageLast, battleAll (env.withLogs isViewLogsEnabled) fuel board health ghostStates grade
      ghosts battleGhostIndex turn seed imageIds =
        pure (finalPlace, healthAfter, statesAfter, imageLast) ∧
      naming.Together last imageLast := by
  simp only [battleAll, Fueled.bind_eq_pure_iff, Fueled.of_eq_pure_iff, Fueled.pure_eq_pure_iff,
    Prod.mk.injEq] at battled ⊢
  obtain ⟨⟨healthAfter, statesAfter, last⟩, battled, place, calculated, rfl, rfl, rfl, rfl⟩ :=
    battled
  have ghosted : ∃ imageLast, battleGhosts (env.withLogs isViewLogsEnabled) fuel board grade health
      ghosts ghostStates battleGhostIndex turn seed imageIds =
        pure (healthAfter, statesAfter, imageLast) ∧ naming.Together last imageLast := by
    unfold battleGhosts at battled ⊢
    split at battled
    · rename_i several
      rw [if_pos several]
      exact battlePvgAndGvg_renamed together battled
    · rename_i single
      rw [if_neg single]
      exact battleLastGhost_renamed together battled
  obtain ⟨imageLast, battledImage, together⟩ := ghosted
  exact ⟨imageLast, ⟨_, battledImage, place, calculated, rfl, rfl, rfl, rfl⟩, together⟩

/-- The battles from where another generator stands, with as many new ids. -/
theorem battleAll_elsewhere (isViewLogsEnabled : Bool) (imageIds : Nat)
    {battleGhostIndex : Nat} {finalPlace : Option Nat}
    (battled : battleAll env fuel board health ghostStates grade ghosts battleGhostIndex turn seed
      generatedIds = pure (finalPlace, healthAfter, statesAfter, last)) :
    ∃ used, last = generatedIds + used ∧ battleAll (env.withLogs isViewLogsEnabled) fuel board
      health ghostStates grade ghosts battleGhostIndex turn seed imageIds =
        pure (finalPlace, healthAfter, statesAfter, imageIds + used) := by
  have together : (Naming.shifting generatedIds imageIds).Together generatedIds imageIds :=
    ⟨0, rfl, rfl⟩
  obtain ⟨lastImage, battledImage, count, rfl, rfl⟩ :=
    @battleAll_renamed _ isViewLogsEnabled _ _ _ _ _ _ _ _ _ _ _ _ _ _ _ _ together battled
  exact ⟨count, rfl, battledImage⟩

/-- A turn's battles come out the same wherever the id generator stands, past
the end of its `u16` as well, and with or without logs. -/
theorem battleAll_eq_pure_iff_shifted (isViewLogsEnabled : Bool) (imageIds : Nat)
    {battleGhostIndex used : Nat} {finalPlace : Option Nat} :
    battleAll env fuel board health ghostStates grade ghosts battleGhostIndex turn seed
        generatedIds = pure (finalPlace, healthAfter, statesAfter, generatedIds + used) ↔
      battleAll (env.withLogs isViewLogsEnabled) fuel board health ghostStates grade ghosts
        battleGhostIndex turn seed imageIds =
          pure (finalPlace, healthAfter, statesAfter, imageIds + used) := by
  constructor
  · intro battled
    obtain ⟨count, same, battledImage⟩ := battleAll_elsewhere isViewLogsEnabled imageIds battled
    rwa [← Nat.add_left_cancel same] at battledImage
  · intro battled
    obtain ⟨count, same, battledImage⟩ :=
      battleAll_elsewhere env.isViewLogsEnabled generatedIds battled
    rwa [← Nat.add_left_cancel same] at battledImage

end Battles

end Battle

end EmojiBattler.Mtc
