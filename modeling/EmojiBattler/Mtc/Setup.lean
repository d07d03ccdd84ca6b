import EmojiBattler.Mtc.Utils

/-! # Before and between the turns -/

namespace EmojiBattler.Mtc

open EmojiBattler.Emo

def playerInitialHealth : Nat := 30

/-! ## The pool -/

/-- The loop of `build_built_base_ids`. -/
def buildBuiltBaseIdsLoop (bases : Bases) (builtBaseIds : List Nat) :
    List Nat → List Nat → List Nat → Result (List Nat)
  | [], baseIds, _ => return baseIds
  | id :: rest, baseIds, usedGrades => do
      let base ← bases.find id
      ensure (base.id ∈ builtBaseIds) (.notContainedInAllowlist id)
      ensure (base.grade ∉ usedGrades) .containsSameGrade
      buildBuiltBaseIdsLoop bases builtBaseIds rest (baseIds ++ [base.id])
        (usedGrades ++ [base.grade])

def buildBuiltBaseIds (selectedBuiltBaseIds : List Nat) (bases : Bases)
    (builtBaseIds : List Nat) : Result (List Nat) := do
  ensure (selectedBuiltBaseIds.length = 6) .invalidLenForSelectedBuiltBaseIds
  buildBuiltBaseIdsLoop bases builtBaseIds selectedBuiltBaseIds [] []

/-- The loop of `build_pool`.  The counter is a `u16`. -/
def buildPoolLoop (bases : Bases) : List Nat → Nat → List Emo → Result (List Emo)
  | [], _, deck => return deck
  | id :: rest, mtcEmoId, deck => do
      let base ← bases.find id
      let num ← getPoolEmoCountByGrade base.grade
      ensure (mtcEmoId + num ≤ u16Max) .arithmeticOverflow
      let emos := (List.range' mtcEmoId num).map fun mtcEmoId =>
        ({ id := mtcEmoId, baseId := base.id } : Emo)
      buildPoolLoop bases rest (mtcEmoId + num) (deck ++ emos)

def buildPool (selectedBuiltBaseIds : List Nat) (bases : Bases)
    (fixedBaseIds builtBaseIds : List Nat) : Result (List Emo) := do
  let baseIds ← buildBuiltBaseIds selectedBuiltBaseIds bases builtBaseIds
  buildPoolLoop bases (baseIds ++ fixedBaseIds) 1 []

/-- The states of the three ghosts of a match of the pallet. -/
def buildInitialGhostStates : List GhostState :=
  [.active playerInitialHealth, .active playerInitialHealth, .active playerInitialHealth]

/-! ## Emo bases -/

def checkAndBuildEmoBases (basesOpt : Option Bases) (newBases : Bases)
    (fixedBaseIds builtBaseIds : List Nat) (forceBasesUpdate : Bool) : Result Bases := do
  let oldBases : Bases := basesOpt.getD fun _ => none
  let bases : Bases := if forceBasesUpdate then newBases else fun id => oldBases id <|> newBases id
  ensure (∀ id ∈ fixedBaseIds, (bases id).isSome) .invalidFixedBaseIds
  ensure (∀ id ∈ builtBaseIds, (bases id).isSome) .invalidBuiltBaseIds
  return bases

/-! ## The history -/

/-- `finish::get_turn_and_previous_grade_and_board`: the length is cast to
`u8`. -/
def getTurnAndPreviousGradeAndBoard (history : List GradeAndBoard) :
    Result (Nat × GradeAndBoard) := do
  let gradeAndBoard := history.getLast?.getD { grade := 1, board := [] }
  let turn ← addU8 (history.length % 256) 1
  return (turn, gradeAndBoard)

def exceedsGradeAndBoardHistoryLimit (gradeAndBoardHistory : List GradeAndBoard) : Bool :=
  30 < gradeAndBoardHistory.length

end EmojiBattler.Mtc
