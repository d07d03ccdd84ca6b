import Mathlib.Logic.Function.Basic
import EmojiBattler.Game.Functions

/-! # The contract -/

namespace EmojiBattler.Game

open EmojiBattler.Emo EmojiBattler.Mtc EmojiBattler.Mtc.Storage
open Sampling
open Function (update)

/-- The pool and the ghosts of a match. -/
structure PlayerImmutable (AccountId : Type) where
  pool : List Mtc.Emo
  ghosts : List (Option (AccountId × Ghost))

/-- The storage.  A mapping is the function of its values. -/
structure Contract (AccountId : Type) where
  admins : List AccountId := []
  emoBases : Option Bases := none
  deckFixedEmoBaseIds : Option (List Nat) := none
  deckBuiltEmoBaseIds : Option (List Nat) := none
  matchmakingGhostsInfo : Nat → Option (List (Nat × AccountId)) := fun _ => none
  matchmakingGhostByIndex : Nat × Nat → Option Ghost := fun _ => none
  /-- The value of `lazy` under its only key. -/
  leaderboard : Option (List (Nat × AccountId)) := none
  playerEp : AccountId → Option Nat := fun _ => none
  playerSeed : AccountId → Option Nat := fun _ => none
  playerMtcImmutable : AccountId → Option (PlayerImmutable AccountId) := fun _ => none
  playerMtcMutable : AccountId → Option PlayerMutable := fun _ => none

/-- What the contract is executed with. -/
structure Chain (AccountId : Type) where
  sampler : Sampler
  /-- The seed that `hash_encoded` yields for a subject, an account and a
  timestamp. -/
  hashEncoded : String → AccountId → Nat → Nat

/-- The circumstances of a message. -/
structure Context (AccountId : Type) where
  caller : AccountId
  callerIsOrigin : Bool
  blockNumber : Nat
  blockTimestamp : Nat

inductive Message (AccountId : Type) where
  /-- The messages that only read. -/
  | get
  | addAdmin (accountId : AccountId)
  | removeAdmin (accountId : AccountId)
  | setCode
  | updateEmoBases (newBases : Bases) (fixedBaseIds builtBaseIds : List Nat)
      (forceBasesUpdate : Bool)
  | startMtc (deckEmoBaseIds : List Nat)
  | finishMtcShop (playerOperations : List Shop.PlayerOperation)

variable {AccountId : Type} [DecidableEq AccountId]

namespace Contract

def new (caller : AccountId) : Contract AccountId := { admins := [caller] }

def getLeaderboard (contract : Contract AccountId) : List (Nat × AccountId) :=
  contract.leaderboard.getD []

def assertAdmin (context : Context AccountId) (contract : Contract AccountId) : Result Unit :=
  ensure (context.caller ∈ contract.admins) (.panicked "assert_admin: caller is not admin")

def addAdmin (context : Context AccountId) (accountId : AccountId)
    (contract : Contract AccountId) : Result (Contract AccountId) := do
  contract.assertAdmin context
  return { contract with admins := contract.admins ++ [accountId] }

def removeAdmin (context : Context AccountId) (accountId : AccountId)
    (contract : Contract AccountId) : Result (Contract AccountId) := do
  contract.assertAdmin context
  return { contract with admins := contract.admins.filter fun a => a ≠ accountId }

/-- The code is not part of the storage. -/
def setCode (context : Context AccountId) (contract : Contract AccountId) :
    Result (Contract AccountId) := do
  contract.assertAdmin context
  return contract

def updateEmoBases (context : Context AccountId) (newBases : Bases)
    (fixedBaseIds builtBaseIds : List Nat) (forceBasesUpdate : Bool)
    (contract : Contract AccountId) : Result (Contract AccountId) := do
  contract.assertAdmin context
  let bases ← checkAndBuildEmoBases contract.emoBases newBases fixedBaseIds builtBaseIds
    forceBasesUpdate
  return { contract with
    emoBases := some bases
    deckFixedEmoBaseIds := some fixedBaseIds
    deckBuiltEmoBaseIds := some builtBaseIds }

def getInsecureRandomSeed (chain : Chain AccountId) (context : Context AccountId)
    (accountId : AccountId) (subject : String) : Result Nat := do
  ensure (context.callerIsOrigin = true) (.panicked "contracts aren't supported yet")
  return chain.hashEncoded subject accountId context.blockTimestamp

/-- Returns the EP as well. -/
def createOrUpdatePlayerEp (player : AccountId) (contract : Contract AccountId) :
    Nat × Contract AccountId :=
  match contract.playerEp player with
  | some oldEp =>
      if (contract.playerMtcMutable player).isSome then
        let newEp := reduceEp oldEp epUnfinishPenalty
        (newEp, { contract with playerEp := update contract.playerEp player (some newEp) })
      else (oldEp, contract)
  | none => (initialEp, { contract with
      playerEp := update contract.playerEp player (some initialEp) })

def initialMtcMutable (ep : Nat) : PlayerMutable where
  health := playerInitialHealth
  gradeAndBoardHistory := []
  upgradeCoin := Shop.getUpgradeCoin 2
  ghostStates := buildInitialGhostStates ep
  battleGhostIndex := 0

def startMtc (chain : Chain AccountId) (context : Context AccountId) (deckEmoBaseIds : List Nat)
    (contract : Contract AccountId) : Result (Contract AccountId) := do
  let player := context.caller
  let seed ← getInsecureRandomSeed chain context player "start_mtc"
  let (ep, contract) := contract.createOrUpdatePlayerEp player
  let emoBases ← okOr contract.emoBases (.panicked "emo_bases none")
  let fixedEmoBaseIds ← okOr contract.deckFixedEmoBaseIds
    (.panicked "deck_fixed_emo_base_ids none")
  let builtEmoBaseIds ← okOr contract.deckBuiltEmoBaseIds
    (.panicked "deck_built_emo_base_ids none")
  let pool ← buildPool deckEmoBaseIds emoBases fixedEmoBaseIds builtEmoBaseIds
  let ghosts ← chooseGhosts chain.sampler ep seed
    (fun epBand => (contract.matchmakingGhostsInfo epBand).map fun v => v.map Prod.snd)
    contract.matchmakingGhostByIndex
  return { contract with
    playerSeed := update contract.playerSeed player (some seed)
    playerMtcImmutable := update contract.playerMtcImmutable player (some { pool, ghosts })
    playerMtcMutable := update contract.playerMtcMutable player (some (initialMtcMutable ep)) }

/-- The index of the oldest entry, the first one of several. -/
def oldestIndex : List (Nat × AccountId) → Nat → Nat × Nat → Nat
  | [], _, oldest => oldest.1
  | (num, _) :: rest, idx, oldest =>
      oldestIndex rest (idx + 1) (if num < oldest.2 then (idx, num) else oldest)

/-- The new list of `add_matchmaking_ghost` and the index of the player. -/
def placeMatchmakingGhost (player : AccountId) (blockNumber : Nat)
    (info : List (Nat × AccountId)) : Result (List (Nat × AccountId) × Nat) :=
  match info.findIdx? fun entry => entry.2 = player with
  | some idx => return (info.set idx (blockNumber, player), idx)
  | none =>
      if info.length < 20 then return (info ++ [(blockNumber, player)], info.length)
      else
        match info with
        | [] => .error (.panicked "iter.next()")
        | (num, _) :: rest =>
            let oldestIdx := oldestIndex rest 1 (0, num)
            return (info.set oldestIdx (blockNumber, player), oldestIdx)

def addMatchmakingGhost (context : Context AccountId) (player : AccountId) (ep : Nat)
    (gradeAndBoardHistory : List GradeAndBoard) (contract : Contract AccountId) :
    Result (Contract AccountId) := do
  let epBand := getEpBand ep
  let (info, index) ← placeMatchmakingGhost player context.blockNumber
    ((contract.matchmakingGhostsInfo epBand).getD [])
  return { contract with
    matchmakingGhostsInfo := update contract.matchmakingGhostsInfo epBand (some info)
    matchmakingGhostByIndex := update contract.matchmakingGhostByIndex (epBand, index % 256)
      (some (buildGhostFromHistory gradeAndBoardHistory)) }

def setLeaderboard (leaderboardOpt : Option (List (Nat × AccountId)))
    (contract : Contract AccountId) : Contract AccountId :=
  match leaderboardOpt with
  | some leaderboard => { contract with leaderboard := some leaderboard }
  | none => contract

/-- The ghost is stored only when the last board is not empty. -/
def addMatchmakingGhostOfHistory (context : Context AccountId) (player : AccountId) (ep : Nat)
    (gradeAndBoardHistory : List GradeAndBoard) (contract : Contract AccountId) :
    Result (Contract AccountId) := do
  let last ← okOr gradeAndBoardHistory.getLast? (.panicked "grade_and_board_history.last()")
  if last.board.isEmpty then return contract
  else contract.addMatchmakingGhost context player ep gradeAndBoardHistory

def finishMtc (context : Context AccountId) (player : AccountId) (place : Nat)
    (gradeAndBoardHistory : List GradeAndBoard) (contract : Contract AccountId) :
    Result (Contract AccountId) := do
  let oldEp ← okOr (contract.playerEp player) (.panicked "player_ep none")
  let newEp ← calcNewEp place oldEp
  let leaderboardOpt ← updateLeaderboard contract.getLeaderboard newEp player
  let contract := contract.setLeaderboard leaderboardOpt
  let contract := { contract with playerEp := update contract.playerEp player (some newEp) }
  let contract ← contract.addMatchmakingGhostOfHistory context player oldEp gradeAndBoardHistory
  return { contract with
    playerMtcImmutable := update contract.playerMtcImmutable player none
    playerMtcMutable := update contract.playerMtcMutable player none }

def finishMtcTurn (env : Env) (player : AccountId) (playerMtcMutable : PlayerMutable)
    (newSeed : Nat) (contract : Contract AccountId) : Result (Contract AccountId) := do
  let playerMtcMutable ← updatePlayerMtcMutableAfterBattle env playerMtcMutable newSeed
  return { contract with
    playerMtcMutable := update contract.playerMtcMutable player (some playerMtcMutable) }

/-- The two branches of `update_for_finish_mtc_shop`. -/
def finishMtcOrTurn (env : Env) (context : Context AccountId) (player : AccountId)
    (newSeed : Nat) (playerMtcMutable : PlayerMutable) (finalPlace : Option Nat)
    (contract : Contract AccountId) : Result (Contract AccountId) :=
  match finalPlace with
  | some place => contract.finishMtc context player place playerMtcMutable.gradeAndBoardHistory
  | none => contract.finishMtcTurn env player playerMtcMutable newSeed

def updateForFinishMtcShop (env : Env) (context : Context AccountId) (player : AccountId)
    (grade : Nat) (board : Board) (newSeed : Nat) (playerMtcMutable : PlayerMutable)
    (finalPlace : Option Nat) (contract : Contract AccountId) : Result (Contract AccountId) := do
  let playerMtcMutable := { playerMtcMutable with
    gradeAndBoardHistory := playerMtcMutable.gradeAndBoardHistory ++ [{ grade, board }] }
  let contract ← contract.finishMtcOrTurn env context player newSeed playerMtcMutable finalPlace
  return { contract with playerSeed := update contract.playerSeed player (some newSeed) }

/-- The id generators start anew with every message. -/
def finishMtcShop (chain : Chain AccountId) (context : Context AccountId) (fuel : Nat)
    (playerOperations : List Shop.PlayerOperation) (contract : Contract AccountId) :
    Fueled (Contract AccountId) := do
  let player := context.caller
  let emoBases ← Fueled.of (okOr contract.emoBases (.panicked "emo_bases none"))
  let env : Env := { emoBases, sampler := chain.sampler }
  let immutable ← Fueled.of
    (okOr (contract.playerMtcImmutable player) (.panicked "player_mtc_immutable none"))
  let mutable ← Fueled.of
    (okOr (contract.playerMtcMutable player) (.panicked "player_mtc_mutable none"))
  let (turn, grade, board) ←
    Fueled.of (getTurnAndPreviousGradeAndBoard mutable.gradeAndBoardHistory)
  let seed ← Fueled.of (okOr (contract.playerSeed player) (.panicked "player_seed none"))
  let (board, grade, upgradeCoin) ← Shop.verifyPlayerOperationsAndUpdate env fuel board grade
    mutable.upgradeCoin playerOperations immutable.pool seed turn 0
  let newSeed ← Fueled.of (getInsecureRandomSeed chain context player "finish_mtc_shop")
  let ghosts := immutable.ghosts.map fun o => (o.map Prod.snd).getD {}
  let (finalPlace, health, ghostStates, _) ← battleAll env fuel board mutable.health
    mutable.ghostStates grade ghosts mutable.battleGhostIndex turn newSeed 0
  let mutable := { mutable with upgradeCoin, health, ghostStates }
  Fueled.of (contract.updateForFinishMtcShop env context player grade board newSeed mutable
    finalPlace)

/-- What a message does. -/
def execute (chain : Chain AccountId) (context : Context AccountId) (fuel : Nat)
    (contract : Contract AccountId) : Message AccountId → Fueled (Contract AccountId)
  | .get => return contract
  | .addAdmin accountId => Fueled.of (contract.addAdmin context accountId)
  | .removeAdmin accountId => Fueled.of (contract.removeAdmin context accountId)
  | .setCode => Fueled.of (contract.setCode context)
  | .updateEmoBases newBases fixedBaseIds builtBaseIds forceBasesUpdate =>
      Fueled.of (contract.updateEmoBases context newBases fixedBaseIds builtBaseIds
        forceBasesUpdate)
  | .startMtc deckEmoBaseIds => Fueled.of (contract.startMtc chain context deckEmoBaseIds)
  | .finishMtcShop playerOperations =>
      contract.finishMtcShop chain context fuel playerOperations

end Contract

end EmojiBattler.Game
