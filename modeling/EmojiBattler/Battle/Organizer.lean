import EmojiBattler.Battle.March

/-! # The battles of a turn -/

namespace EmojiBattler.Mtc

open EmojiBattler.Emo Battle

variable (env : Env)

/-! ## Building the emos of a battle -/

/-- The loop of `build_battle_emos_from_board` and
`build_battle_emos_from_ghost_board`.  Returns the state of the id generator
as well. -/
def buildBattleEmos : List (Nat × Attributes) → Nat → Result (List BattleEmo × Nat)
  | [], generatedIds => return ([], generatedIds)
  | (baseId, attributes) :: rest, generatedIds => do
      let base ← env.emoBases.find baseId
      let (emos, last) ← buildBattleEmos rest (generatedIds + 1)
      return (BattleEmo.newWithAttributes generatedIds base attributes :: emos, last)

def boardEntries (board : Board) : List (Nat × Attributes) :=
  board.map fun emo => (emo.baseId, emo.attributes)

def ghostBoardEntries (ghostBoard : GhostBoard) : List (Nat × Attributes) :=
  ghostBoard.map fun emo => (emo.baseId, emo.attributes)

def buildBattleEmosFromBoard (board : Board) : Nat → Result (List BattleEmo × Nat) :=
  buildBattleEmos env (boardEntries board)

def buildBattleEmosFromGhostBoard (ghostBoard : GhostBoard) :
    Nat → Result (List BattleEmo × Nat) :=
  buildBattleEmos env (ghostBoardEntries ghostBoard)

def marchPvg (fuel : Nat) (board : Board) (ghostBoard : GhostBoard) (seed generatedIds : Nat) :
    Fueled (Nat × Nat × St env) := do
  let (battleEmos0, generatedIds) ← Fueled.of (buildBattleEmosFromBoard env board generatedIds)
  let (battleEmos1, generatedIds) ←
    Fueled.of (buildBattleEmosFromGhostBoard env ghostBoard generatedIds)
  march env fuel battleEmos0 battleEmos1 seed generatedIds

def marchGvg (fuel : Nat) (ghostBoard0 ghostBoard1 : GhostBoard) (seed generatedIds : Nat) :
    Fueled (Nat × Nat × St env) := do
  let (battleEmos0, generatedIds) ←
    Fueled.of (buildBattleEmosFromGhostBoard env ghostBoard0 generatedIds)
  let (battleEmos1, generatedIds) ←
    Fueled.of (buildBattleEmosFromGhostBoard env ghostBoard1 generatedIds)
  march env fuel battleEmos0 battleEmos1 seed generatedIds

/-! ## Ghosts -/

def GhostState.isActive : GhostState → Bool
  | .active _ => true
  | .retired _ => false

def emptyGradeAndGhostBoard : GradeAndGhostBoard where
  grade := 1
  board := []

/-- The turn whose board a ghost uses: a retired one stays at its last turn. -/
def effectiveTurn (state : GhostState) (turn : Nat) : Nat :=
  match state with
  | .retired finalTurn => min turn finalTurn
  | .active _ => turn

/-- The length of the history is cast to `u8`. -/
def getGradeAndGhostBoard (gradeAndGhostBoards : List GradeAndGhostBoard) (state : GhostState)
    (turn : Nat) : Result GradeAndGhostBoard :=
  let histLen := gradeAndGhostBoards.length % 256
  if histLen = 0 then return emptyGradeAndGhostBoard
  else if effectiveTurn state turn ≤ histLen then do
    ensure (effectiveTurn state turn ≠ 0) .arithmeticOverflow
    okOr gradeAndGhostBoards[effectiveTurn state turn - 1]? .indexOutOfBounds
  else okOr gradeAndGhostBoards[histLen - 1]? .indexOutOfBounds

def selectBattleGhostIndex (states : List GhostState) (previousIndex seed : Nat) :
    Result Nat := do
  let indexed ← zipU8 states
  let liveIndexes := (indexed.filter fun (state, _) => state.isActive).map Prod.snd
  ensure (liveIndexes.length ≠ 0) .liveZero
  if liveIndexes.length = 1 then okOr liveIndexes[0]? .indexOutOfBounds
  else
    okOr (env.sampler.chooseFrom (env.sampler.seedFromU64 seed)
      (liveIndexes.filter fun i => i ≠ previousIndex)).1 .chooseFailed

/-! ## Damage -/

def damageHealth (boardGrade grade health : Nat) : Result Nat :=
  if 0 < boardGrade then do
    let damage ← addU8 boardGrade grade
    return health - damage
  else return health

def damageGhostHealth (boardGrade grade : Nat) (ghostState : GhostState) (turn : Nat) :
    Result GhostState :=
  match ghostState with
  | .active health => do
      let health ← damageHealth boardGrade grade health
      return if health = 0 then .retired turn else .active health
  | .retired finalTurn => return .retired finalTurn

def damagePlayerHealth (boardGrade grade health : Nat) : Result Nat :=
  damageHealth boardGrade grade health

/-! ## Battles -/

/-- Returns the health of the player, the state of the ghost and that of the
id generator. -/
def battlePvg (fuel grade health : Nat) (board : Board) (ghostState : GhostState)
    (ghostHistory : List GradeAndGhostBoard) (turn seed generatedIds : Nat) :
    Fueled (Nat × GhostState × Nat) := do
  let ghostGradeAndGhostBoard ← Fueled.of (getGradeAndGhostBoard ghostHistory ghostState turn)
  let (playerBoardGrade, ghostBoardGrade, state) ←
    marchPvg env fuel board ghostGradeAndGhostBoard.board seed generatedIds
  let ghostState ← Fueled.of (damageGhostHealth playerBoardGrade grade ghostState turn)
  let health ← Fueled.of
    (damagePlayerHealth ghostBoardGrade ghostGradeAndGhostBoard.grade health)
  return (health, ghostState, state.generatedIds)

/-- Returns the states of both ghosts and that of the id generator. -/
def battleGvg (fuel : Nat) (ghost0State : GhostState) (ghost0History : List GradeAndGhostBoard)
    (ghost1State : GhostState) (ghost1History : List GradeAndGhostBoard)
    (turn seed generatedIds : Nat) : Fueled (GhostState × GhostState × Nat) := do
  let ghost0GradeAndGhostBoard ← Fueled.of (getGradeAndGhostBoard ghost0History ghost0State turn)
  let ghost1GradeAndGhostBoard ← Fueled.of (getGradeAndGhostBoard ghost1History ghost1State turn)
  let (ghost0BoardGrade, ghost1BoardGrade, state) ←
    marchGvg env fuel ghost0GradeAndGhostBoard.board ghost1GradeAndGhostBoard.board seed
      generatedIds
  let ghost0State ← Fueled.of
    (damageGhostHealth ghost1BoardGrade ghost1GradeAndGhostBoard.grade ghost0State turn)
  let ghost1State ← Fueled.of
    (damageGhostHealth ghost0BoardGrade ghost0GradeAndGhostBoard.grade ghost1State turn)
  return (ghost0State, ghost1State, state.generatedIds)

/-- The ghost sets of `battle_pvg_and_gvg`, the battled ghost first.  A set
holds a ghost, its state and the place of the state, which the source borrows
mutably. -/
def buildGhostSets (ghosts : List Ghost) (ghostStates : List GhostState)
    (battleGhostIndex : Nat) : Result (List (Ghost × GhostState × Nat)) :=
  let ghostSets := ghosts.zip ghostStates.zipIdx
  if battleGhostIndex ≠ 0 then swapElements ghostSets 0 battleGhostIndex else .ok ghostSets

def battlePvgAndGvg (fuel : Nat) (board : Board) (grade health : Nat) (ghosts : List Ghost)
    (ghostStates : List GhostState) (battleGhostIndex turn seed generatedIds : Nat) :
    Fueled (Nat × List GhostState × Nat) := do
  match ← Fueled.of (buildGhostSets ghosts ghostStates battleGhostIndex) with
  | [] => Fueled.of (.error (.failedToSplitGhostSets 0))
  | [_] => Fueled.of (.error (.failedToSplitGhostSets 1))
  | [_, _] => Fueled.of (.error (.failedToSplitGhostSets 2))
  | (ghost0, state0, place0) :: (ghost1, state1, place1) :: (ghost2, state2, place2) :: _ => do
      let (health, state0, generatedIds) ←
        battlePvg env fuel grade health board state0 ghost0.history turn seed generatedIds
      let (state1, state2, generatedIds) ←
        battleGvg env fuel state1 ghost1.history state2 ghost2.history turn seed generatedIds
      let ghostStates :=
        ((ghostStates.set place0 state0).set place1 state1).set place2 state2
      return (health, ghostStates, generatedIds)

/-! ## The final place -/

/-- Whether the loop of `calc_final_place` counts a ghost, given its state after
and before the battle. -/
def isAhead (preHealth : Nat) : GhostState × GhostState → Bool
  | (.active _, _) => true
  | (.retired _, .active ghostHealth) => preHealth < ghostHealth
  | (.retired _, .retired _) => false

def calcFinalPlace (health preHealth : Nat) (ghostStates preGhostStates : List GhostState) :
    Result (Option Nat) :=
  let areAllGhostsRetired := ghostStates.all fun state => !state.isActive
  if health = 0 ∨ areAllGhostsRetired then
    if areAllGhostsRetired then return some 1
    else do
      let place ← (ghostStates.zip preGhostStates).foldlM
        (fun place states => if isAhead preHealth states then addU8 place 1 else pure place) 1
      return some place
  else return none

/-- The branch of `battle_all` for a single active ghost. -/
def battleLastGhost (fuel : Nat) (board : Board) (grade health : Nat) (ghosts : List Ghost)
    (ghostStates : List GhostState) (turn seed generatedIds : Nat) :
    Fueled (Nat × List GhostState × Nat) := do
  let (ghostState, ghostIndex) ← Fueled.of (okOr
    (ghostStates.zipIdx.find? fun (state, _) => state.isActive) .battleAllInvalid)
  let ghost ← Fueled.of (okOr ghosts[ghostIndex]? .indexOutOfBounds)
  let (health, ghostState, generatedIds) ←
    battlePvg env fuel grade health board ghostState ghost.history turn seed generatedIds
  return (health, ghostStates.set ghostIndex ghostState, generatedIds)

/-- The two branches of `battle_all`. -/
def battleGhosts (fuel : Nat) (board : Board) (grade health : Nat) (ghosts : List Ghost)
    (ghostStates : List GhostState) (battleGhostIndex turn seed generatedIds : Nat) :
    Fueled (Nat × List GhostState × Nat) :=
  if 1 < (ghostStates.filter GhostState.isActive).length then
    battlePvgAndGvg env fuel board grade health ghosts ghostStates battleGhostIndex turn seed
      generatedIds
  else battleLastGhost env fuel board grade health ghosts ghostStates turn seed generatedIds

/-- Returns the final place, the health of the player, the states of the ghosts
and that of the id generator. -/
def battleAll (fuel : Nat) (board : Board) (health : Nat) (ghostStates : List GhostState)
    (grade : Nat) (ghosts : List Ghost) (battleGhostIndex turn seed generatedIds : Nat) :
    Fueled (Option Nat × Nat × List GhostState × Nat) := do
  let preHealth := health
  let preGhostStates := ghostStates
  let (health, ghostStates, generatedIds) ←
    battleGhosts env fuel board grade health ghosts ghostStates battleGhostIndex turn seed
      generatedIds
  let finalPlace ← Fueled.of (calcFinalPlace health preHealth ghostStates preGhostStates)
  return (finalPlace, health, ghostStates, generatedIds)

end EmojiBattler.Mtc
