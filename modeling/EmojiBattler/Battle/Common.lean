import EmojiBattler.Mtc.Utils

/-! # Battle boards -/

namespace EmojiBattler.Mtc.Battle

open EmojiBattler.Emo Sampling

structure BattleEmo where
  /-- Unique in a battle. -/
  id : Nat
  baseId : Nat
  typ : Typ
  attributes : Attributes
  attackAndSurvivedCount : Nat
deriving DecidableEq

structure BattleBoards where
  board0 : List BattleEmo
  board1 : List BattleEmo
deriving DecidableEq

def switchPlayerIndex : PlayerIndex → PlayerIndex
  | .zero => .one
  | .one => .zero

namespace BattleBoards

def getBoard (boards : BattleBoards) : PlayerIndex → List BattleEmo
  | .zero => boards.board0
  | .one => boards.board1

/-- Writes a board back, as an assignment through `get_board_mut`. -/
def setBoard (boards : BattleBoards) (playerIndex : PlayerIndex) (board : List BattleEmo) :
    BattleBoards :=
  match playerIndex with
  | .zero => { boards with board0 := board }
  | .one => { boards with board1 := board }

def isEmptyBoard (boards : BattleBoards) (playerIndex : PlayerIndex) : Bool :=
  (boards.getBoard playerIndex).isEmpty

def countBoardEmos (boards : BattleBoards) (playerIndex : PlayerIndex) : Nat :=
  (boards.getBoard playerIndex).length

def getEmo (boards : BattleBoards) (playerIndex : PlayerIndex) (emoIndex : Nat) :
    Result BattleEmo :=
  okOr (boards.getBoard playerIndex)[emoIndex]? (.emoNotFound emoIndex)

def getEmoMut (boards : BattleBoards) (playerIndex : PlayerIndex) (emoIndex : Nat) :
    Result BattleEmo :=
  okOr (boards.getBoard playerIndex)[emoIndex]? (.emoMutNotFound emoIndex)

/-- Writes an emo back, as an assignment through `get_emo_mut`. -/
def setEmo (boards : BattleBoards) (playerIndex : PlayerIndex) (emoIndex : Nat)
    (emo : BattleEmo) : BattleBoards :=
  boards.setBoard playerIndex ((boards.getBoard playerIndex).set emoIndex emo)

def findEmoIndexById (boards : BattleBoards) (playerIndex : PlayerIndex) (emoId : Nat) :
    Option Nat :=
  (boards.getBoard playerIndex).findIdx? fun emo => emo.id = emoId

def hasEmoAtIndex (boards : BattleBoards) (playerIndex : PlayerIndex) (emoIndex : Nat) : Bool :=
  emoIndex < boards.countBoardEmos playerIndex

@[simp] theorem getBoard_setBoard (boards : BattleBoards) (playerIndex : PlayerIndex)
    (board : List BattleEmo) :
    (boards.setBoard playerIndex board).getBoard playerIndex = board := by
  cases playerIndex <;> rfl

theorem getBoard_setBoard_of_ne {boards : BattleBoards} {playerIndex other : PlayerIndex}
    {board : List BattleEmo} (different : other ≠ playerIndex) :
    (boards.setBoard playerIndex board).getBoard other = boards.getBoard other := by
  cases playerIndex <;> cases other <;> first | rfl | exact absurd rfl different

@[simp] theorem getEmo_eq_ok_iff {boards : BattleBoards} {playerIndex : PlayerIndex}
    {emoIndex : Nat} {emo : BattleEmo} :
    boards.getEmo playerIndex emoIndex = .ok emo ↔
      (boards.getBoard playerIndex)[emoIndex]? = some emo := by
  simp [getEmo]

@[simp] theorem getEmoMut_eq_ok_iff {boards : BattleBoards} {playerIndex : PlayerIndex}
    {emoIndex : Nat} {emo : BattleEmo} :
    boards.getEmoMut playerIndex emoIndex = .ok emo ↔
      (boards.getBoard playerIndex)[emoIndex]? = some emo := by
  simp [getEmoMut]

@[simp] theorem hasEmoAtIndex_iff {boards : BattleBoards} {playerIndex : PlayerIndex}
    {emoIndex : Nat} :
    boards.hasEmoAtIndex playerIndex emoIndex = true ↔
      emoIndex < (boards.getBoard playerIndex).length := by
  rw [hasEmoAtIndex, decide_eq_true_eq, countBoardEmos]

end BattleBoards

@[simp] theorem switchPlayerIndex_ne (playerIndex : PlayerIndex) :
    switchPlayerIndex playerIndex ≠ playerIndex := by
  cases playerIndex <;> simp [switchPlayerIndex]

/-- The battle ability in an ability. -/
def battleAbility? : Ability → Option Ability.Battle
  | .battle battle => some battle
  | .shop _ => none

/-- An entry of `get_board_abilities`.  The owner's id is not in the source's
entries and no function reads it: it records which emo contributed the entry. -/
structure BoardAbility where
  emoIndex : Nat
  ability : Ability.Battle
  ownerId : Nat

def BattleBoards.getBoardAbilities (boards : BattleBoards) (playerIndex : PlayerIndex) :
    List BoardAbility :=
  (boards.getBoard playerIndex).zipIdx.flatMap fun (emo, emoIndex) =>
    (emo.attributes.abilities.filterMap battleAbility?).map fun ability =>
      { emoIndex, ability, ownerId := emo.id }

/-- The battle abilities of an emo and their indexes among its abilities. -/
def BattleEmo.getAbilities (emo : BattleEmo) : Result (List (Nat × Ability.Battle)) := do
  let indexed ← zipU8 emo.attributes.abilities
  return indexed.filterMap fun (ability, abilityIndex) =>
    (battleAbility? ability).map fun battle => (abilityIndex, battle)

def isMatchedTypAndTripleForEmo (typAndTriple : Ability.TypOptAndIsTripleOpt)
    (emo : BattleEmo) : Bool :=
  isMatchedTypAndTriple typAndTriple emo.typ emo.attributes.isTriple

/-- Everything a battle changes. -/
structure BattleState (sampler : Sampler) where
  boards : BattleBoards
  logs : List Log
  rng : sampler.Rng
  /-- How many ids were generated.  The generator is a `u16` that wraps. -/
  generatedIds : Nat

namespace BattleState

variable {sampler : Sampler}

abbrev getBoard (state : BattleState sampler) (playerIndex : PlayerIndex) : List BattleEmo :=
  state.boards.getBoard playerIndex

/-- `Logs::add` -/
def addLog (env : Env) (state : BattleState sampler) (log : Log) : BattleState sampler :=
  if env.isViewLogsEnabled then { state with logs := state.logs ++ [log] } else state

@[simp] theorem addLog_boards (env : Env) (state : BattleState sampler) (log : Log) :
    (state.addLog env log).boards = state.boards := by
  unfold addLog
  split <;> rfl

@[simp] theorem addLog_getBoard (env : Env) (state : BattleState sampler) (log : Log)
    (playerIndex : PlayerIndex) :
    (state.addLog env log).getBoard playerIndex = state.getBoard playerIndex := by
  rw [getBoard, addLog_boards]

@[simp] theorem addLog_rng (env : Env) (state : BattleState sampler) (log : Log) :
    (state.addLog env log).rng = state.rng := by
  unfold addLog
  split <;> rfl

@[simp] theorem addLog_generatedIds (env : Env) (state : BattleState sampler) (log : Log) :
    (state.addLog env log).generatedIds = state.generatedIds := by
  unfold addLog
  split <;> rfl

end BattleState

/-- The id that `generate_battle_emo_id` returns after so many calls. -/
def generateBattleEmoId (generatedIds : Nat) : Nat := generatedIds % 65536

def BattleEmo.newWithAttributes (generatedIds : Nat) (base : Base) (attributes : Attributes) :
    BattleEmo where
  id := generateBattleEmoId generatedIds
  baseId := base.id
  typ := base.typ
  attributes := attributes
  attackAndSurvivedCount := 0

def BattleEmo.newWithBase (generatedIds : Nat) (base : Base) (isTriple : Bool) : BattleEmo :=
  .newWithAttributes generatedIds base (buildEmoAttributes base isTriple)

/-! ## What the snapshots contain -/

theorem BattleBoards.mem_getBoardAbilities {boards : BattleBoards} {playerIndex : PlayerIndex}
    {entry : BoardAbility} (member : entry ∈ boards.getBoardAbilities playerIndex) :
    ∃ emo, (boards.getBoard playerIndex)[entry.emoIndex]? = some emo ∧
      emo.id = entry.ownerId ∧ .battle entry.ability ∈ emo.attributes.abilities := by
  obtain ⟨⟨emo, emoIndex⟩, indexed, inside⟩ := List.mem_flatMap.mp member
  obtain ⟨ability, listed, rfl⟩ := List.mem_map.mp inside
  obtain ⟨source, present, same⟩ := List.mem_filterMap.mp listed
  refine ⟨emo, List.mem_zipIdx_iff_getElem?.mp indexed, rfl, ?_⟩
  cases source with
  | battle battle =>
      cases same
      exact present
  | shop shop => cases same

theorem BattleEmo.mem_getAbilities {emo : BattleEmo} {listed : List (Nat × Ability.Battle)}
    (abilities : emo.getAbilities = .ok listed) {abilityIndex : Nat} {ability : Ability.Battle}
    (member : (abilityIndex, ability) ∈ listed) :
    emo.attributes.abilities[abilityIndex]? = some (.battle ability) := by
  simp only [BattleEmo.getAbilities, Result.bind_eq_ok_iff, zipU8_eq_ok_iff,
    Result.pure_eq_ok_iff] at abilities
  obtain ⟨_, ⟨_, rfl⟩, rfl⟩ := abilities
  obtain ⟨⟨source, index⟩, indexed, same⟩ := List.mem_filterMap.mp member
  have found := List.mem_zipIdx_iff_getElem?.mp indexed
  cases source with
  | battle battle =>
      cases same
      exact found
  | shop shop => cases same

/-- The abilities of an emo can be listed as long as a `u8` counts them. -/
theorem BattleEmo.getAbilities_isOk_iff {emo : BattleEmo} :
    (∃ listed, emo.getAbilities = .ok listed) ↔ emo.attributes.abilities.length ≤ u8Max := by
  simp [BattleEmo.getAbilities]

end EmojiBattler.Mtc.Battle
