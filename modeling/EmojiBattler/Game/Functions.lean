import EmojiBattler.Battle.Organizer
import EmojiBattler.Mtc.Ghost
import EmojiBattler.Mtc.Setup
import EmojiBattler.Shop.PlayerOperation

/-! # Functions of the contract -/

namespace EmojiBattler.Game

open EmojiBattler.Mtc EmojiBattler.Mtc.Storage

/-- Returns the turn, the grade and the board. -/
def getTurnAndPreviousGradeAndBoard (history : List GradeAndBoard) :
    Result (Nat × Nat × Board) := do
  let (turn, gradeAndBoard) ← Mtc.getTurnAndPreviousGradeAndBoard history
  ensure (turn < 40) (.panicked "max turn exceeded")
  return (turn, gradeAndBoard.grade, gradeAndBoard.board)

def updatePlayerMtcMutableAfterBattle (env : Env) (playerMtcMutable : PlayerMutable)
    (newSeed : Nat) : Result PlayerMutable := do
  let battleGhostIndex ← selectBattleGhostIndex env playerMtcMutable.ghostStates
    playerMtcMutable.battleGhostIndex newSeed
  return { playerMtcMutable with
    upgradeCoin := Shop.decreaseUpgradeCoin playerMtcMutable.upgradeCoin
    battleGhostIndex }

/-- What the first two places add to the EP. -/
def plusOfPlace? : Nat → Option Nat
  | 1 => some 70
  | 2 => some 50
  | _ => none

/-- What the last two places take from the EP. -/
def minusOfPlace (place : Nat) : Result Nat :=
  match place with
  | 3 => return 30
  | 4 => return 50
  | _ => .error (.panicked "unsupported place")

def calcNewEp (place oldEp : Nat) : Result Nat :=
  match plusOfPlace? place with
  | some plus =>
      let added :=
        if initialEp < oldEp then
          let x := (oldEp - initialEp) / 40
          if x < plus then plus - x else 1
        else plus
      return saturatingAddU16 added oldEp
  | none => reduceEp oldEp <$> minusOfPlace place

def leaderboardSize : Nat := 100

variable {A : Type} [DecidableEq A]

/-- The loop of `update_leaderboard`: the index of the account and that of the
first entry whose EP is not higher.  `none` when the account has a higher EP
already. -/
def scanLeaderboard (ep : Nat) (account : A) :
    List (Nat × A) → Nat → Option Nat → Option Nat → Option (Option Nat × Option Nat)
  | [], _, sameAccountIndexOpt, newPosIndexOpt => some (sameAccountIndexOpt, newPosIndexOpt)
  | (iterEp, iterAccount) :: rest, index, sameAccountIndexOpt, newPosIndexOpt =>
      if iterAccount = account ∧ ep < iterEp then none
      else
        let sameAccountIndexOpt :=
          if iterAccount = account then some index else sameAccountIndexOpt
        let newPosIndexOpt :=
          if newPosIndexOpt = none ∧ iterEp ≤ ep then some index else newPosIndexOpt
        if sameAccountIndexOpt.isSome ∧ newPosIndexOpt.isSome then
          some (sameAccountIndexOpt, newPosIndexOpt)
        else scanLeaderboard ep account rest (index + 1) sameAccountIndexOpt newPosIndexOpt

/-- `None` when the leaderboard stays as it is. -/
def updateLeaderboard (leaderboard : List (Nat × A)) (ep : Nat) (account : A) :
    Result (Option (List (Nat × A))) :=
  match scanLeaderboard ep account leaderboard 0 none none with
  | none => return none
  | some (some sameAccountIndex, newPosIndexOpt) => do
      let newPosIndex ← okOr newPosIndexOpt (.panicked "new_pos_index_opt")
      let (oldEp, _) ← okOr leaderboard[sameAccountIndex]? .indexOutOfBounds
      if sameAccountIndex = newPosIndex ∧ oldEp = ep then return none
      else if newPosIndex < sameAccountIndex then
        -- `rotate_right(1)` of the slice between the two indexes
        return some ((leaderboard.eraseIdx sameAccountIndex).insertIdx newPosIndex (ep, account))
      else return some (leaderboard.set sameAccountIndex (ep, account))
  | some (none, some newPosIndex) =>
      return some ((leaderboard.insertIdx newPosIndex (ep, account)).take leaderboardSize)
  | some (none, none) =>
      if leaderboard.length < leaderboardSize then return some (leaderboard ++ [(ep, account)])
      else return none

/-- The health of the ghosts by the EP band of the player. -/
def buildInitialGhostStates (ep : Nat) : List GhostState :=
  let health :=
    match getEpBand ep with
    | 0 => 14
    | 1 => 16
    | 2 => 18
    | 3 => 20
    | 4 => 22
    | 5 => 24
    | 6 => 26
    | 7 => 28
    | _ => 30
  List.replicate 3 (.active health)

end EmojiBattler.Game
