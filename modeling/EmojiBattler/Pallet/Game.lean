import EmojiBattler.Battle.Organizer
import EmojiBattler.Pallet.Sessions
import EmojiBattler.Shop.PlayerOperation

/-! # The turns of the game pallet -/

namespace EmojiBattler.Pallet

open EmojiBattler.Emo EmojiBattler.Mtc
open Function (update)

/-- The result of a call whose run is bounded by a fuel. -/
abbrev Dispatched := ExceptT Error Option

def Dispatched.of (result : Except Error α) : Dispatched α := ExceptT.mk (some result)

/-- A value of the storage, or the error that it is missing. -/
def Dispatched.get (stored : Option α) (missing : Error) : Dispatched α :=
  .of (stored.elim (.error missing) .ok)

/-- `map_err` of a function of `common`. -/
def Dispatched.mapErr (result : Fueled α) (error : Error) : Dispatched α :=
  ExceptT.mk (result.run.map fun ended => ended.mapError fun _ => error)

/-- What a transaction is executed with. -/
structure Surroundings (AccountId : Type) where
  outside : Outside AccountId
  sampler : Sampling.Sampler
  fuel : Nat
  /-- How many ids the two generators returned before. -/
  shopBoardEmoIds : Nat
  battleEmoIds : Nat

variable {AccountId : Type} [DecidableEq AccountId]

/-- The main account that acts by a session, or the error that there is none. -/
def getMain (session : AccountId) (storage : Storage AccountId) : Dispatched AccountId :=
  .of (storage.mainOfSession session)

namespace Storage

/-- `_verify_player_operations_and_update`; it returns the grade and the upgrade
coin as well. -/
def verifyPlayerOperationsAndUpdate (surroundings : Surroundings AccountId)
    (accountId : AccountId) (board : Board) (grade : Nat) (upgradeCoin : Option Nat)
    (playerOperations : List Shop.PlayerOperation) (turn : Nat) (emoBases : Bases)
    (storage : Storage AccountId) : Dispatched (Board × Nat × Option Nat) := do
  let pool ← .get (storage.playerPool accountId) .playerPoolNone
  let oldSeed ← .get (storage.playerSeed accountId) .playerSeedNone
  .mapErr (Shop.verifyPlayerOperationsAndUpdate { emoBases, sampler := surroundings.sampler }
    surroundings.fuel board grade upgradeCoin playerOperations pool oldSeed turn
    surroundings.shopBoardEmoIds) .invalidShopPlayerOperations

/-- `_battle`; it returns the health and the states of the ghosts as well. -/
def battle (surroundings : Surroundings AccountId) (board : Board) (health : Nat)
    (ghostStates : List GhostState) (grade : Nat) (ghosts : List Ghost)
    (battleGhostIndex turn newSeed : Nat) (emoBases : Bases) :
    Dispatched (Option Nat × Nat × List GhostState) := do
  let (finalPlace, health, ghostStates, _) ← .mapErr
    (battleAll { emoBases, sampler := surroundings.sampler } surroundings.fuel board health
      ghostStates grade ghosts battleGhostIndex turn newSeed surroundings.battleEmoIds)
    .battleFailed
  return (finalPlace, health, ghostStates)

/-- `_register_ghost` -/
def registerGhost (accountId : AccountId) (ep : Nat) (gradeAndBoardHistory : List GradeAndBoard)
    (storage : Storage AccountId) : Storage AccountId :=
  let (epBand, ghostsWithData) :=
    buildMatchmakingGhosts accountId ep gradeAndBoardHistory storage.matchmakingGhosts
  { storage with
    matchmakingGhosts := update storage.matchmakingGhosts epBand (some ghostsWithData) }

/-- The EPs of the ghosts, those of the healthiest first: a stable sort by
health, reversed. -/
def sortedGhostEps (ghostStates : List GhostState) (ghostEps : List Nat) : List Nat :=
  let ghosts := (ghostStates.map fun
    | .active health => health
    | .retired _ => 0).zip ghostEps
  (ghosts.mergeSort fun left right => left.1 ≤ right.1).reverse.map Prod.snd

section Rating

-- `calculate_new_ep`, which computes with floats.
variable (calculateNewEp : Nat → Nat → List Nat → Nat)

/-- `_update_ep` -/
def updateEp (accountId : AccountId) (place : Nat) (ghostStates : List GhostState)
    (ghostEps : List Nat) (storage : Storage AccountId) :
    Except Error (Nat × Storage AccountId) := do
  let ep ← (storage.playerEp accountId).elim (.error .playerEpNone) .ok
  let newEp := calculateNewEp ep place (sortedGhostEps ghostStates ghostEps)
  return (newEp, { storage with playerEp := update storage.playerEp accountId (some newEp) })

/-- `_finish_mtc` -/
def finishMtc (accountId : AccountId) (place : Nat) (ghostStates : List GhostState)
    (ghostEps : List Nat) (gradeAndBoardHistory : List GradeAndBoard)
    (storage : Storage AccountId) : Except Error (Storage AccountId) := do
  let (ep, storage) ← storage.updateEp calculateNewEp accountId place ghostStates ghostEps
  let storage :=
    if place < 4 then
      let storage := storage.registerGhost accountId ep gradeAndBoardHistory
      { storage with
        playerFirstAirdropEligible :=
          update storage.playerFirstAirdropEligible accountId (some true) }
    else storage
  return storage.cleanupFinished accountId

/-- `_finish_battle` -/
def finishBattle (surroundings : Surroundings AccountId) (accountId : AccountId)
    (upgradeCoin : Option Nat) (ghostStates : List GhostState)
    (battleGhostIndex newSeed health : Nat) (gradeAndBoardHistory : List GradeAndBoard)
    (emoBases : Bases) (storage : Storage AccountId) : Except Error (Storage AccountId) := do
  if exceedsGradeAndBoardHistoryLimit gradeAndBoardHistory then .error .maxTurnExceeded
  else
    let upgradeCoin := Shop.decreaseUpgradeCoin upgradeCoin
    let newBattleGhostIndex ←
      (selectBattleGhostIndex { emoBases, sampler := surroundings.sampler } ghostStates
        battleGhostIndex newSeed).mapError fun _ => Error.battleGhostSelectionFailed
    return { storage with
      playerGradeAndBoardHistory :=
        update storage.playerGradeAndBoardHistory accountId (some gradeAndBoardHistory)
      playerHealth := update storage.playerHealth accountId (some health)
      playerGhostStates := update storage.playerGhostStates accountId (some ghostStates)
      playerBattleGhostIndex :=
        update storage.playerBattleGhostIndex accountId (some newBattleGhostIndex)
      playerUpgradeCoin := update storage.playerUpgradeCoin accountId upgradeCoin }

/-- `_finish` -/
def finish (surroundings : Surroundings AccountId) (accountId : AccountId) (grade : Nat)
    (board : Board) (newSeed : Nat) (upgradeCoin : Option Nat) (battleGhostIndex health : Nat)
    (ghostStates : List GhostState) (ghostEps : List Nat)
    (gradeAndBoardHistory : List GradeAndBoard) (finalPlace : Option Nat) (emoBases : Bases)
    (storage : Storage AccountId) : Except Error (Storage AccountId) := do
  let gradeAndBoardHistory := gradeAndBoardHistory ++ [({ grade, board } : GradeAndBoard)]
  let storage ←
    match finalPlace with
    | some place =>
        storage.finishMtc calculateNewEp accountId place ghostStates ghostEps gradeAndBoardHistory
    | none =>
        storage.finishBattle surroundings accountId upgradeCoin ghostStates battleGhostIndex
          newSeed health gradeAndBoardHistory emoBases
  return { storage with playerSeed := update storage.playerSeed accountId (some newSeed) }

/-- `_finish_mtc_shop` -/
def finishMtcShopOf (surroundings : Surroundings AccountId) (accountId : AccountId)
    (playerOperations : List Shop.PlayerOperation) (storage : Storage AccountId) :
    Dispatched (Storage AccountId) := do
  let emoBases ← .get storage.emoBases .emoBasesNone
  let gradeAndBoardHistory ← .get (storage.playerGradeAndBoardHistory accountId)
    .playerGradeAndBoardHistoryNone
  let upgradeCoin := storage.playerUpgradeCoin accountId
  let (turn, gradeAndBoard) ← .mapErr
    (Fueled.of (getTurnAndPreviousGradeAndBoard gradeAndBoardHistory)) .panicked
  let (board, grade, upgradeCoin) ← storage.verifyPlayerOperationsAndUpdate surroundings accountId
    gradeAndBoard.board gradeAndBoard.grade upgradeCoin playerOperations turn emoBases
  let health ← .get (storage.playerHealth accountId) .playerHealthNone
  let battleGhostIndex ← .get (storage.playerBattleGhostIndex accountId)
    .playerBattleGhostIndexNone
  let ghostStates ← .get (storage.playerGhostStates accountId) .playerGhostStatesNone
  let newSeed := surroundings.outside.getRandomSeed "finish_mtc_shop"
  let playerGhosts ← .get (storage.playerGhosts accountId) .playerGhostsNone
  let (ghosts, ghostEps) := separatePlayerGhosts playerGhosts
  let (finalPlace, health, ghostStates) ← battle surroundings board health ghostStates grade
    ghosts battleGhostIndex turn newSeed emoBases
  .of (storage.finish calculateNewEp surroundings accountId grade board newSeed upgradeCoin
    battleGhostIndex health ghostStates ghostEps gradeAndBoardHistory finalPlace emoBases)

/-- `finish_mtc_shop`, signed by the session key. -/
def finishMtcShop (surroundings : Surroundings AccountId) (session : AccountId)
    (playerOperations : List Shop.PlayerOperation) (storage : Storage AccountId) :
    Dispatched (Storage AccountId) := do
  let main ← getMain session storage
  storage.finishMtcShopOf calculateNewEp surroundings main playerOperations

end Rating

end Storage

end EmojiBattler.Pallet
