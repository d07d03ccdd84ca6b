import EmojiBattler.Library.CallMachine
import EmojiBattler.Shop.Common

/-! # The ability cascade of a shop

As in a battle, the functions are cut at the calls that may nest without
bound.  Here a task keeps the local variables of the function it belongs to:
`add_emo_with_board_emo` counts its coins from zero, and the function that
called it adds them to its own afterwards. -/

namespace EmojiBattler.Mtc.Shop

open EmojiBattler.Emo Sampling
open EmojiBattler.Emo.Ability (Destination Target TypOptAndIsTripleOpt)
open EmojiBattler.Emo.Ability.Shop (NormalAction Peri PeriAsAllyAction Pre)

def emoTripleRewardCoin : Nat := 5

def emoSellCoin : Nat := 1

inductive EmoPointer where
  | onBoard (emoId : Nat)
  | removed (emo : ShopBoardEmo) (prevEmoIndex : Nat)
deriving DecidableEq

namespace EmoPointer

def getEmo (board : ShopBoard) : EmoPointer → Result ShopBoardEmo
  | .onBoard emoId => board.getEmoById emoId
  | .removed emo _ => .ok emo

def getEmoId : EmoPointer → Nat
  | .onBoard emoId => emoId
  | .removed emo _ => emo.id

def getEmoIndex (board : ShopBoard) : EmoPointer → Result Nat
  | .onBoard emoId => board.getEmoIndexById emoId
  | .removed _ prevEmoIndex => .ok prevEmoIndex

/-- The index right of the emo, as `set_emo` and `get_right_emo_id` compute it.
An index that was found is below 255, so the sum fits. -/
def getRightEmoIndex (board : ShopBoard) : EmoPointer → Result Nat
  | .onBoard emoId => (· + 1) <$> board.getEmoIndexById emoId
  | .removed _ prevEmoIndex => .ok prevEmoIndex

end EmoPointer

/-- Everything the functions of this file change. -/
structure ShopState where
  board : ShopBoard
  logs : List BoardLog
  /-- The `gotten_coin` of the innermost function that counts coins. -/
  gottenCoin : Nat
  /-- How many ids were generated. -/
  generatedIds : Nat

/-- A call that is due. -/
inductive Task (sampler : Sampler) where
  /-- The rest of the loop of `start_shop`. -/
  | callPreAbilities (rng : sampler.Rng) (abilities : List (Nat × Pre))
  | callAbilityActionAsOneself (action : NormalAction) (actionEmoPointer : EmoPointer)
  | callAbilityActionAsAlly (action : PeriAsAllyAction) (oneselfEmoId : Nat)
      (allyEmoPointer : EmoPointer)
  | callAbilityAction (action : NormalAction) (actionEmoPointer : EmoPointer)
      (isTripleAction : Bool)
  /-- `call_emo_addition_abilities` after the new emo's own abilities. -/
  | callBoardAdditionAbilities (newEmoId : Nat) (newEmoTyp : Typ) (isNewEmoTriple : Bool)
  | processTriple (newEmoId : Nat)
  /-- `set_emo` after `add_emo`, with the coins counted before. -/
  | setEmoReturn (gottenCoin : Nat)
  /-- `process_triple` after `add_emo_with_board_emo`, with the coins counted
  before. -/
  | processTripleReturn (gottenCoin : Nat)

variable (env : Env)

/-- The calls a function makes and the state they start from. -/
abbrev Calls (env : Env) := List (Task env.sampler) × ShopState

namespace ShopState

/-- `BoardLogs::add` -/
def addLog (env : Env) (state : ShopState) (log : BoardLog) : ShopState :=
  if env.isViewLogsEnabled then { state with logs := state.logs ++ [log] } else state

@[simp] theorem addLog_board (env : Env) (state : ShopState) (log : BoardLog) :
    (state.addLog env log).board = state.board := by
  unfold addLog
  split <;> rfl

@[simp] theorem addLog_gottenCoin (env : Env) (state : ShopState) (log : BoardLog) :
    (state.addLog env log).gottenCoin = state.gottenCoin := by
  unfold addLog
  split <;> rfl

@[simp] theorem addLog_generatedIds (env : Env) (state : ShopState) (log : BoardLog) :
    (state.addLog env log).generatedIds = state.generatedIds := by
  unfold addLog
  split <;> rfl

/-- Writes an emo back, as an assignment through a mutable reference. -/
def setEmoAt (state : ShopState) (index : Nat) (emo : ShopBoardEmo) : ShopState :=
  { state with board := state.board.set index emo }

end ShopState

/-! ## Targets -/

def isMatchedTypAndTripleBoardEmo (typAndTriple : TypOptAndIsTripleOpt)
    (boardEmo : ShopBoardEmo) : Result Bool :=
  if typAndTriple.typOpt = none then
    return isMatchedTriple typAndTriple.isTripleOpt boardEmo.attributes.isTriple
  else do
    let base ← env.emoBases.find boardEmo.baseId
    return isMatchedTypAndTriple typAndTriple base.typ boardEmo.attributes.isTriple

/-- One iteration of the loop of `count_emos_by_typ_and_triple`. -/
def countEmoByTypAndTriple (pointerEmoId : Nat) (typAndTriple : TypOptAndIsTripleOpt)
    (count : Nat) (emo : ShopBoardEmo) : Result Nat := do
  if emo.id = pointerEmoId then return count
  let isMatched ← isMatchedTypAndTripleBoardEmo env typAndTriple emo
  if isMatched then addU8 count 1 else return count

def countEmosByTypAndTriple (board : ShopBoard) (emoPointer : EmoPointer)
    (typAndTriple : TypOptAndIsTripleOpt) : Result Nat :=
  board.foldlM (countEmoByTypAndTriple env emoPointer.getEmoId typAndTriple) 0

def getRightEmoId (board : ShopBoard) (originEmoPointer : EmoPointer) : Result (Option Nat) := do
  let index ← originEmoPointer.getRightEmoIndex board
  return (board.getEmoIdByIndex index).toOption

def getLeftEmoId (board : ShopBoard) (originEmoPointer : EmoPointer) : Result (Option Nat) := do
  let index ← originEmoPointer.getEmoIndex board
  match checkedSub index 1 with
  | some index => some <$> board.getEmoIdByIndex index
  | none => return none

/-- The ids in a direction, before the filter of
`get_emo_ids_by_target_others`. -/
def getEmoIdsByDestination (board : ShopBoard) (emoPointer : EmoPointer) :
    Destination → Result (List Nat)
  | .right => Option.toList <$> getRightEmoId board emoPointer
  | .left => Option.toList <$> getLeftEmoId board emoPointer
  | .all => return board.emoIds.filter fun id => id ≠ emoPointer.getEmoId

/-- The filter of `get_emo_ids_by_target_others`. -/
def filterMatchedEmoIds (board : ShopBoard) (typAndTriple : TypOptAndIsTripleOpt) :
    List Nat → Result (List Nat)
  | [] => return []
  | id :: rest => do
      let emo ← board.getEmoById id
      let isMatched ← isMatchedTypAndTripleBoardEmo env typAndTriple emo
      let filteredIds ← filterMatchedEmoIds board typAndTriple rest
      return if isMatched then id :: filteredIds else filteredIds

def getEmoIdsByTarget (board : ShopBoard) (emoPointer : EmoPointer) :
    Target → Result (List Nat)
  | .oneself =>
      match emoPointer with
      | .onBoard emoId => return [emoId]
      | .removed _ _ => return []
  | .others destination typAndTriple => do
      let ids ← getEmoIdsByDestination board emoPointer destination
      filterMatchedEmoIds env board typAndTriple ids

/-! ## Changing emos -/

def addAttackAndHealthToEmo (attack health : Nat) (state : ShopState) (boardEmoId : Nat) :
    Result ShopState := do
  let (boardEmo, boardEmoIndex) ← state.board.getEmoMutAndIndexById boardEmoId
  let calculatedAttack := saturatingAddU16 boardEmo.attributes.attack attack
  let calculatedHealth := saturatingAddU16 boardEmo.attributes.health health
  let state := state.addLog env
    (.increaseStats boardEmoIndex attack health calculatedAttack calculatedHealth)
  return state.setEmoAt boardEmoIndex { boardEmo with attributes :=
    { boardEmo.attributes with attack := calculatedAttack, health := calculatedHealth } }

def addAttackAndHealthToEmos (emoPointer : EmoPointer) (target : Target) (attack health : Nat)
    (state : ShopState) : Result ShopState := do
  let ids ← getEmoIdsByTarget env state.board emoPointer target
  ids.foldlM (addAttackAndHealthToEmo env attack health) state

def increaseStats (actionEmoPointer : EmoPointer) (isTripleAction : Bool) (target : Target)
    (attack health : Nat) (state : ShopState) : Result ShopState :=
  let (attack, health) := doubleAttackAndHealthIf isTripleAction attack health
  addAttackAndHealthToEmos env actionEmoPointer target attack health state

/-- The left half of `increase_stats_of_adjacent_menagerie`, and the type of
the emo on the left. -/
def increaseStatsOfLeft (actionEmoPointer : EmoPointer) (attack health : Nat)
    (state : ShopState) : Result (Option Typ × ShopState) := do
  match ← getLeftEmoId state.board actionEmoPointer with
  | some id => do
      let emo ← state.board.getEmoById id
      let base ← env.emoBases.find emo.baseId
      let state ← addAttackAndHealthToEmo env attack health state emo.id
      return (some base.typ, state)
  | none => return (none, state)

/-- The right half of `increase_stats_of_adjacent_menagerie`. -/
def increaseStatsOfRight (actionEmoPointer : EmoPointer) (leftTypOpt : Option Typ)
    (attack health : Nat) (state : ShopState) : Result ShopState := do
  match ← getRightEmoId state.board actionEmoPointer with
  | some id => do
      let emo ← state.board.getEmoById id
      match leftTypOpt with
      | some leftTyp => do
          let base ← env.emoBases.find emo.baseId
          if leftTyp ≠ base.typ then addAttackAndHealthToEmo env attack health state emo.id
          else return state
      | none => addAttackAndHealthToEmo env attack health state emo.id
  | none => return state

def increaseStatsOfAdjacentMenagerie (actionEmoPointer : EmoPointer) (isTripleAction : Bool)
    (attack health : Nat) (state : ShopState) : Result ShopState := do
  let (attack, health) := doubleAttackAndHealthIf isTripleAction attack health
  let (leftTypOpt, state) ← increaseStatsOfLeft env actionEmoPointer attack health state
  increaseStatsOfRight env actionEmoPointer leftTypOpt attack health state

def increaseStatsByGrade (actionEmoPointer : EmoPointer) (isTripleAction : Bool)
    (target : Target) (attack health : Nat) (state : ShopState) : Result ShopState := do
  let (attack, health) := doubleAttackAndHealthIf isTripleAction attack health
  let actionEmo ← actionEmoPointer.getEmo state.board
  let base ← env.emoBases.find actionEmo.baseId
  addAttackAndHealthToEmos env actionEmoPointer target (saturatingMulU16 attack base.grade)
    (saturatingMulU16 health base.grade) state

def increaseStatsByEmoCount (actionEmoPointer : EmoPointer) (isTripleAction : Bool)
    (target : Target) (countCondition : TypOptAndIsTripleOpt) (attack health : Nat)
    (state : ShopState) : Result ShopState := do
  let (attack, health) := doubleAttackAndHealthIf isTripleAction attack health
  let count ← countEmosByTypAndTriple env state.board actionEmoPointer countCondition
  addAttackAndHealthToEmos env actionEmoPointer target (saturatingMulU16 attack count)
    (saturatingMulU16 health count) state

def isSpecialBattleAbility : Ability → Bool
  | .battle (.special _) => true
  | _ => false

/-- One iteration of the loop of `add_ability`. -/
def addAbilityToEmo (ability : Ability) (state : ShopState) (id : Nat) : Result ShopState := do
  let (boardEmo, index) ← state.board.getEmoMutAndIndexById id
  if isSpecialBattleAbility ability ∧ ability ∈ boardEmo.attributes.abilities then return state
  let state := state.addLog env (.addAbility index ability boardEmo.attributes.isTriple)
  return state.setEmoAt index { boardEmo with attributes :=
    { boardEmo.attributes with abilities := boardEmo.attributes.abilities ++ [ability] } }

def addAbility (emoPointer : EmoPointer) (target : Target) (ability : Ability)
    (state : ShopState) : Result ShopState := do
  let ids ← getEmoIdsByTarget env state.board emoPointer target
  ids.foldlM (addAbilityToEmo env ability) state

def getCoin (isTripleAction : Bool) (coin : Nat) (state : ShopState) : ShopState :=
  let coin := if isTripleAction then saturatingMulU8 coin 2 else coin
  { state with gottenCoin := saturatingAddU8 state.gottenCoin coin }

def getCoinByEmoCountDiv (actionEmoPointer : EmoPointer) (isTripleAction : Bool)
    (countCondition : TypOptAndIsTripleOpt) (divisor : Nat) (state : ShopState) :
    Result ShopState := do
  let count ← countEmosByTypAndTriple env state.board actionEmoPointer countCondition
  ensure (divisor ≠ 0) .divisionByZero
  return getCoin isTripleAction (count / divisor) state

/-- The loop of `increase_stats_of_menagerie`. -/
def increaseStatsOfMenagerieLoop (actionEmoId typCount attack health : Nat) :
    List Nat → List Typ → ShopState → Result ShopState
  | [], _, state => return state
  | candidateEmoId :: rest, typs, state =>
      if candidateEmoId = actionEmoId then
        increaseStatsOfMenagerieLoop actionEmoId typCount attack health rest typs state
      else do
        let emo ← state.board.getEmoMutById candidateEmoId
        let base ← env.emoBases.find emo.baseId
        if base.typ ∈ typs then
          increaseStatsOfMenagerieLoop actionEmoId typCount attack health rest typs state
        else do
          let state ← addAttackAndHealthToEmo env attack health state candidateEmoId
          if typCount ≤ typs.length + 1 then return state
          else
            increaseStatsOfMenagerieLoop actionEmoId typCount attack health rest
              (typs ++ [base.typ]) state

def increaseStatsOfMenagerie (rng : env.sampler.Rng) (actionEmoId typCount attack health : Nat)
    (state : ShopState) : Result (env.sampler.Rng × ShopState) := do
  let (emoIds, rng) := env.sampler.shuffleAll rng state.board.emoIds
  let actionEmo ← state.board.getEmoById actionEmoId
  let (attack, health) := doubleAttackAndHealthIf actionEmo.attributes.isTriple attack health
  let state ← increaseStatsOfMenagerieLoop env actionEmoId typCount attack health emoIds [] state
  return (rng, state)

/-! ## Adding emos -/

/-- The action of an ability with the `Set` trigger. -/
def setAction? : Peri → Option NormalAction
  | .asOneself .set action => some action
  | _ => none

/-- The action of an ability with the `Sell` trigger. -/
def sellAction? : Peri → Option NormalAction
  | .asOneself .sell action => some action
  | _ => none

def callEmoAdditionAbilities (newEmoId : Nat) (state : ShopState) :
    Result (List (Task env.sampler)) := do
  let newEmo ← state.board.getEmoById newEmoId
  let base ← env.emoBases.find newEmo.baseId
  return (newEmo.getPeriAbilities.filterMap setAction?).map
      (.callAbilityActionAsOneself · (.onBoard newEmoId)) ++
    [.callBoardAdditionAbilities newEmoId base.typ newEmo.attributes.isTriple]

/-- The call that an ability on the board makes for a new emo. -/
def additionCall? (newEmoId : Nat) (newEmoTyp : Typ) (isNewEmoTriple : Bool)
    (abilityEmoId : Nat) (ability : Peri) : Option (Task env.sampler) :=
  match ability with
  | .asAlly (.allySet typAndTriple) action =>
      if isMatchedTypAndTriple typAndTriple newEmoTyp isNewEmoTriple then
        some (.callAbilityActionAsAlly action abilityEmoId (.onBoard newEmoId))
      else none
  | .asOneself (.allySet typAndTriple) action =>
      if isMatchedTypAndTriple typAndTriple newEmoTyp isNewEmoTriple then
        some (.callAbilityActionAsOneself action (.onBoard abilityEmoId))
      else none
  | _ => none

def callBoardAdditionAbilities (newEmoId : Nat) (newEmoTyp : Typ) (isNewEmoTriple : Bool)
    (state : ShopState) : Calls env :=
  (state.board.getBoardPeriAbilities.filterMap fun (abilityEmoId, ability) =>
    if abilityEmoId = newEmoId then none
    else additionCall? env newEmoId newEmoTyp isNewEmoTriple abilityEmoId ability, state)

def addEmoWithBoardEmo (newBoardEmo : ShopBoardEmo) (emoIndex : Nat) (state : ShopState) :
    Result (Calls env) := do
  let len := state.board.countEmos
  ensure (len < boardEmoMaxCount) .boardMaxCapacity
  ensure (emoIndex ≤ len) .invalidEmoIndexForAdd
  let state := state.addLog env (.add emoIndex newBoardEmo.intoBoardEmo)
  let state := { state with
    board := state.board.insertIdx emoIndex newBoardEmo
    gottenCoin := 0 }
  let calls ← callEmoAdditionAbilities env newBoardEmo.id state
  return (calls ++ if newBoardEmo.attributes.isTriple then [] else [.processTriple newBoardEmo.id],
    state)

/-- `add_emo` up to its calls. -/
def addEmoCalls (mtcEmoIds : List Nat) (baseId : Nat) (isTriple : Bool) (emoIndex : Nat)
    (state : ShopState) : Result (Calls env) := do
  let base ← env.emoBases.find baseId
  let boardEmo := ShopBoardEmo.newWithBase state.generatedIds mtcEmoIds base isTriple
  addEmoWithBoardEmo env boardEmo emoIndex { state with generatedIds := state.generatedIds + 1 }

def setEmo (actionEmoPointer : EmoPointer) (isTripleAction : Bool) (baseId : Nat)
    (state : ShopState) : Result (Calls env) := do
  if state.board.countEmos < boardEmoMaxCount then
    let index ← actionEmoPointer.getRightEmoIndex state.board
    let (calls, after) ← addEmoCalls env [] baseId isTripleAction index state
    return (calls ++ [.setEmoReturn state.gottenCoin], after)
  else return ([], state)

/-! ## Triples -/

/-- One iteration of the loop of `remove_triple_emos`. -/
def removeTripleEmo (removedAndBoard : List ShopBoardEmo × ShopBoard) (index : Nat) :
    Result (List ShopBoardEmo × ShopBoard) := do
  let (removed, board) := removedAndBoard
  let emo ← okOr board[index]? .indexOutOfBounds
  return (removed ++ [emo], board.eraseIdx index)

/-- Removes from the last index to the first, so that the indexes stay
right. -/
def removeTripleEmos (board : ShopBoard) (sortedTripleSourceIndexes : List Nat) :
    Result (List ShopBoardEmo × ShopBoard) := do
  let (removed, board) ← sortedTripleSourceIndexes.reverse.foldlM removeTripleEmo ([], board)
  return (removed.reverse, board)

def buildTripleEmoNums (base : Base) (sourceBoardEmos : List ShopBoardEmo) :
    Result (Nat × Nat) := do
  let attackDiff ← sumU16 (sourceBoardEmos.map fun emo => emo.attributes.attack - base.attack)
  let healthDiff ← sumU16 (sourceBoardEmos.map fun emo => emo.attributes.health - base.health)
  return (saturatingAddU16 (saturatingMulU16 base.attack 2) attackDiff,
    saturatingAddU16 (saturatingMulU16 base.health 2) healthDiff)

def buildTripleAbilities (baseAbilities : List Ability) (sourceBoardEmos : List ShopBoardEmo) :
    List Ability :=
  baseAbilities ++ sourceBoardEmos.flatMap fun boardEmo =>
    boardEmo.attributes.abilities.filter fun ability => ability ∉ baseAbilities

def buildTripleEmo (generatedIds : Nat) (sourceBoardEmos : List ShopBoardEmo)
    (targetBaseId : Nat) : Result ShopBoardEmo := do
  let base ← env.emoBases.find targetBaseId
  let (attack, health) ← buildTripleEmoNums base sourceBoardEmos
  return .fromAttributes generatedIds (sourceBoardEmos.flatMap ShopBoardEmo.mtcEmoIds) base.id
    { attack, health, abilities := buildTripleAbilities base.abilities sourceBoardEmos,
      isTriple := true }

/-- The emos that `process_triple` merges with an emo of this base. -/
def isSameBaseNotTriple (targetBaseId : Nat) (emo : ShopBoardEmo) : Bool :=
  targetBaseId = emo.baseId && !emo.attributes.isTriple

def processTriple (newEmoId : Nat) (state : ShopState) : Result (Calls env) := do
  let (target, newEmoIndex) ← state.board.getEmoAndIndexById newEmoId
  let emosWithIndexes ← state.board.emosWithIndexes
  let sameBaseNotTripleIndexes := (emosWithIndexes.filter fun (emo, _) =>
    isSameBaseNotTriple target.baseId emo).map Prod.snd
  if 3 ≤ sameBaseNotTripleIndexes.length then
    let (removed, board) ← removeTripleEmos state.board sameBaseNotTripleIndexes
    let tripleEmo ← buildTripleEmo env state.generatedIds removed target.baseId
    let tripleIndex ← okOr (checkedSub newEmoIndex
      (sameBaseNotTripleIndexes.filter (· < newEmoIndex)).length) .arithmeticOverflow
    let merged := { state with board, generatedIds := state.generatedIds + 1 }
    let (calls, after) ← addEmoWithBoardEmo env tripleEmo tripleIndex
      (merged.addLog env (.triple sameBaseNotTripleIndexes))
    return (calls ++ [.processTripleReturn state.gottenCoin], after)
  else return ([], state)

/-! ## Abilities -/

def callAbilityAction (action : NormalAction) (actionEmoPointer : EmoPointer)
    (isTripleAction : Bool) (state : ShopState) : Result (Calls env) :=
  match action with
  | .setEmo baseId => setEmo env actionEmoPointer isTripleAction baseId state
  | .increaseStats target attack health =>
      ([], ·) <$> increaseStats env actionEmoPointer isTripleAction target attack health state
  | .increaseStatsOfAdjacentMenagerie attack health =>
      ([], ·) <$> increaseStatsOfAdjacentMenagerie env actionEmoPointer isTripleAction attack
        health state
  | .increaseStatsByGrade target attack health =>
      ([], ·) <$> increaseStatsByGrade env actionEmoPointer isTripleAction target attack health
        state
  | .increaseStatsByEmoCount target countCondition attack health =>
      ([], ·) <$> increaseStatsByEmoCount env actionEmoPointer isTripleAction target
        countCondition attack health state
  | .addAbility target ability => ([], ·) <$> addAbility env actionEmoPointer target ability state
  | .getCoin coin => return ([], getCoin isTripleAction coin state)
  | .getCoinByEmoCountDiv countCondition divisor =>
      ([], ·) <$> getCoinByEmoCountDiv env actionEmoPointer isTripleAction countCondition divisor
        state

def callAbilityActionAsOneself (action : NormalAction) (actionEmoPointer : EmoPointer)
    (state : ShopState) : Result (Calls env) := do
  let actionEmo ← actionEmoPointer.getEmo state.board
  return ([.callAbilityAction action actionEmoPointer actionEmo.attributes.isTriple], state)

def triggerSetActions (allyEmoPointer : EmoPointer) (isOneselfEmoTriple : Bool)
    (state : ShopState) : Result (Calls env) := do
  let allyEmo ← allyEmoPointer.getEmo state.board
  let calls := (allyEmo.getPeriAbilities.filterMap setAction?).flatMap fun action =>
    let call := Task.callAbilityAction action allyEmoPointer allyEmo.attributes.isTriple
    if isOneselfEmoTriple then [call, call] else [call]
  return (calls, state)

def callAbilityActionAsAlly (action : PeriAsAllyAction) (oneselfEmoId : Nat)
    (allyEmoPointer : EmoPointer) (state : ShopState) : Result (Calls env) := do
  let oneselfEmo ← state.board.getEmoById oneselfEmoId
  match action with
  | .oneselfTripleNormal normalAction =>
      return ([.callAbilityAction normalAction allyEmoPointer oneselfEmo.attributes.isTriple],
        state)
  | .custom .triggerSetActions =>
      triggerSetActions env allyEmoPointer oneselfEmo.attributes.isTriple state

/-- The loop of `start_shop` over `call_pre_ability`. -/
def callPreAbilities (rng : env.sampler.Rng) (abilities : List (Nat × Pre)) (state : ShopState) :
    Result (Calls env) :=
  match abilities with
  | [] => return ([], state)
  | (actionEmoId, .normal action) :: rest =>
      return ([.callAbilityActionAsOneself action (.onBoard actionEmoId),
        .callPreAbilities rng rest], state)
  | (actionEmoId, .random (.increaseStatsOfMenagerie typCount attack health)) :: rest => do
      let (rng, state) ← increaseStatsOfMenagerie env rng actionEmoId typCount attack health state
      return ([.callPreAbilities rng rest], state)

/-- What a task does. -/
def perform : CallMachine.Machine (Task env.sampler) ShopState MtcError
  | .callPreAbilities rng abilities, state => callPreAbilities env rng abilities state
  | .callAbilityActionAsOneself action actionEmoPointer, state =>
      callAbilityActionAsOneself env action actionEmoPointer state
  | .callAbilityActionAsAlly action oneselfEmoId allyEmoPointer, state =>
      callAbilityActionAsAlly env action oneselfEmoId allyEmoPointer state
  | .callAbilityAction action actionEmoPointer isTripleAction, state =>
      callAbilityAction env action actionEmoPointer isTripleAction state
  | .callBoardAdditionAbilities newEmoId newEmoTyp isNewEmoTriple, state =>
      return callBoardAdditionAbilities env newEmoId newEmoTyp isNewEmoTriple state
  | .processTriple newEmoId, state => processTriple env newEmoId state
  | .setEmoReturn gottenCoin, state =>
      return ([], { state with gottenCoin := saturatingAddU8 gottenCoin state.gottenCoin })
  | .processTripleReturn gottenCoin, state =>
      let gottenCoin := saturatingAddU8 gottenCoin state.gottenCoin
      return ([], { state with gottenCoin := saturatingAddU8 gottenCoin emoTripleRewardCoin })

/-! ## The shop actions

The coins an action returns are the `gottenCoin` of its final state. -/

/-- Runs the calls of an action to their end. -/
def runCalls (fuel : Nat) (calls : Calls env) : Fueled ShopState :=
  ExceptT.mk (CallMachine.run (perform env) fuel calls.1 calls.2)

def startShopCalls (seed : Nat) (state : ShopState) : Calls env :=
  ([.callPreAbilities (env.sampler.seedFromU64 (reverseBitsU64 seed))
    state.board.getBoardPreAbilities], { state with gottenCoin := 0 })

def startShop (fuel seed : Nat) (state : ShopState) : Fueled ShopState :=
  runCalls env fuel (startShopCalls env seed state)

/-- `sell_emo` up to its calls. -/
def sellEmoCalls (emoIndex : Nat) (state : ShopState) : Result (Calls env) := do
  ensure (emoIndex < state.board.countEmos) .invalidIndexForSell
  let sold ← okOr state.board[emoIndex]? .indexOutOfBounds
  let state := state.addLog env (.remove emoIndex)
  let state := { state with
    board := state.board.eraseIdx emoIndex
    gottenCoin := emoSellCoin }
  return ((sold.getPeriAbilities.filterMap sellAction?).map
    (.callAbilityActionAsOneself · (.removed sold emoIndex)), state)

def sellEmo (fuel emoIndex : Nat) (state : ShopState) : Fueled ShopState := do
  let calls ← Fueled.of (sellEmoCalls env emoIndex state)
  runCalls env fuel calls

def moveEmo (emoIndex : Nat) (isRight : Bool) (state : ShopState) : Result ShopState := do
  let len := state.board.countEmos
  ensure (emoIndex < len) .invalidIndexForMove
  ensure (¬ (emoIndex = 0 ∧ !isRight)) .cannotMoveLeft
  ensure (¬ (emoIndex + 1 = len ∧ isRight)) .cannotMoveRight
  let toIndex := if isRight then emoIndex + 1 else emoIndex - 1
  let state := state.addLog env (.move emoIndex toIndex)
  let board ← state.board.swapEmos emoIndex toIndex
  return { state with board, gottenCoin := 0 }

def addEmo (fuel : Nat) (mtcEmoIds : List Nat) (baseId : Nat) (isTriple : Bool) (emoIndex : Nat)
    (state : ShopState) : Fueled ShopState := do
  let calls ← Fueled.of (addEmoCalls env mtcEmoIds baseId isTriple emoIndex state)
  runCalls env fuel calls

end EmojiBattler.Mtc.Shop
