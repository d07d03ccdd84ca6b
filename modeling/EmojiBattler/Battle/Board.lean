import EmojiBattler.Library.CallMachine
import EmojiBattler.Battle.Common

/-! # The ability cascade of a battle

The functions of this file call each other without bound, so they are cut at
those calls.  A function that makes calls returns them as tasks, in order,
together with the state they start from; `perform` says what each task does.
The iterations of a loop over a snapshot are tasks of their own. -/

namespace EmojiBattler.Mtc.Battle

open EmojiBattler.Emo Sampling
open EmojiBattler.Emo.Ability (Side Destination Target TargetOrRandom TypOptAndIsTripleOpt)
open EmojiBattler.Emo.Ability.Battle (NormalAction GeneralAsAllyAction AsAllyAction)

/-- `Tick`: the number of the attack and who made the first one. -/
structure Tick where
  num : Nat
  firstAttackPlayerIndex : PlayerIndex
deriving DecidableEq

/-- A call that is due.  The ids in tasks are not in the source and no function
reads them: they record which emo an index was taken from. -/
inductive Task where
  /-- One iteration of the outer loop of `call_pre_abilities`. -/
  | callPreAbilitiesOf (playerIndex : PlayerIndex)
  | attack (attackPlayerIndex : PlayerIndex)
  | attackDamage (attackPlayerIndex : PlayerIndex) (attackEmoIndex defenseEmoIndex : Nat)
  /-- `attack_damage` after the defender was damaged. -/
  | attackDamageCounter (attackPlayerIndex : PlayerIndex)
      (attackEmoIndex defenseEmoAttack attackEmoId : Nat)
  /-- The last statement of `attack_damage`. -/
  | countAttackAndSurvived (attackPlayerIndex : PlayerIndex) (attackEmoIndex attackEmoId : Nat)
  | callAbilityNormalActionAsOneself (playerIndex : PlayerIndex) (action : NormalAction)
      (actionEmoIndex : Nat) (retiredActionEmoOpt : Option BattleEmo) (ownerId : Option Nat)
  | callAbilityGeneralAsAllyAction (playerIndex : PlayerIndex) (action : GeneralAsAllyAction)
      (allyEmoIndex : Nat) (retiredAllyEmoOpt : Option BattleEmo) (oneselfEmoIndex ownerId : Nat)
  /-- One iteration of the loop of `call_shield_removed_ability`. -/
  | callShieldRemovedAbilityOf (playerIndex : PlayerIndex) (action : NormalAction)
      (emoIndex : Nat) (excludesSameBase : Bool) (shieldRemovedEmoBaseId ownerId : Nat)
  /-- `call_emo_retire_player_abilities` after the retired emo's own abilities. -/
  | callEmoRetireBoardAbilities (playerIndex : PlayerIndex) (retiredEmoIndex : Nat)
      (retiredEmo : BattleEmo)
  | callEmoRetireRivalAbilities (playerIndex : PlayerIndex) (retiredEmo : BattleEmo)
  /-- One iteration of the loop of `set_emos_by_attack_div`. -/
  | setEmo (playerIndex : PlayerIndex) (emoIndex baseId : Nat) (isTriple : Bool)
      (attackAndSurvivedCount : Nat) (side : Side)
  /-- One iteration of the loop of `damage_all_emos`. -/
  | damageAllEmosOf (playerIndex : PlayerIndex) (damage emoId : Nat)
  /-- `march` after the pre abilities. -/
  | marchBegin (tick : Tick)
  /-- The body of the loop of `march`. -/
  | marchLoop (tick : Tick)
  /-- The body of the loop of `march` after the attack. -/
  | marchNext (tick : Tick)

variable (env : Env)

/-- The calls a function makes and the state they start from. -/
abbrev Calls (env : Env) := List Task × BattleState env.sampler

abbrev St (env : Env) := BattleState env.sampler

/-! ## Adding emos -/

def addEmo (playerIndex : PlayerIndex) (emoIndex : Nat) (emo : BattleEmo) (state : St env) :
    Result (Calls env) := do
  let len := state.boards.countBoardEmos playerIndex
  if len < boardEmoMaxCount then
    ensure (emoIndex ≤ len) .invalidEmoIndex
    let state := state.addLog env (.add playerIndex emoIndex emo.baseId emo.attributes)
    let board := (state.getBoard playerIndex).insertIdx emoIndex emo
    let state := { state with boards := state.boards.setBoard playerIndex board }
    let addedEmo ← state.boards.getEmo playerIndex emoIndex
    let calls := (state.boards.getBoardAbilities playerIndex).filterMap fun entry =>
      if entry.emoIndex = emoIndex then none
      else
        match entry.ability with
        | .general (.asAlly (.allySet typAndTriple) action) =>
            if isMatchedTypAndTriple typAndTriple addedEmo.typ addedEmo.attributes.isTriple then
              some (Task.callAbilityGeneralAsAllyAction playerIndex action emoIndex none
                entry.emoIndex entry.ownerId)
            else none
        | _ => none
    return (calls, state)
  else
    return ([], state)

def setEmoAlly (playerIndex : PlayerIndex) (emoIndex : Nat) (battleEmo : BattleEmo)
    (attackAndSurvivedCount : Nat) (state : St env) : Result (Calls env) :=
  addEmo env playerIndex emoIndex { battleEmo with attackAndSurvivedCount } state

def setEmoRival (playerIndex : PlayerIndex) (battleEmo : BattleEmo) (state : St env) :
    Result (Calls env) :=
  let rivalPlayerIndex := switchPlayerIndex playerIndex
  let rivalPlayerBoard := state.getBoard rivalPlayerIndex
  let attackAndSurvivedCount :=
    match rivalPlayerBoard.getLast? with
    | some last => last.attackAndSurvivedCount
    | none => 0
  addEmo env rivalPlayerIndex rivalPlayerBoard.length { battleEmo with attackAndSurvivedCount }
    state

def setEmo (playerIndex : PlayerIndex) (emoIndex baseId : Nat) (isTriple : Bool)
    (attackAndSurvivedCount : Nat) (side : Side) (state : St env) : Result (Calls env) := do
  let emoBase ← env.emoBases.find baseId
  let battleEmo := BattleEmo.newWithBase state.generatedIds emoBase isTriple
  let state := { state with generatedIds := state.generatedIds + 1 }
  match side with
  | .ally => setEmoAlly env playerIndex emoIndex battleEmo attackAndSurvivedCount state
  | .rival => setEmoRival env playerIndex battleEmo state

def setEmosByAttackDiv (playerIndex : PlayerIndex)
    (actionEmoAttackAndSurvivedCount actionEmoAttack : Nat) (isTripleAction : Bool)
    (newEmoIndex baseId divisor : Nat) (side : Side) (state : St env) : Result (Calls env) := do
  ensure (divisor ≠ 0) .divisionByZero
  let count := min (actionEmoAttack / divisor) boardEmoMaxCount
  return (List.replicate count (.setEmo playerIndex newEmoIndex baseId isTripleAction
    actionEmoAttackAndSurvivedCount side), state)

/-! ## Targets -/

/-- The emos of a board and their indexes, without the acting emo unless it
has retired. -/
def otherEmos (board : List BattleEmo) (emoIndex : Nat) (isActionEmoRetired : Bool) :
    List (BattleEmo × Nat) :=
  board.zipIdx.filter fun (_, index) => isActionEmoRetired || index ≠ emoIndex

/-- The emos in a direction, before the filter of
`get_matched_emo_indexs_from_board`. -/
def getEmosWithIndex (board : List BattleEmo) (emoIndex : Nat) (destination : Destination)
    (isActionEmoRetired : Bool) : Result (List (BattleEmo × Nat)) :=
  match destination with
  | .right =>
      let index := if isActionEmoRetired then emoIndex else emoIndex + 1
      .ok (board[index]?.toList.map fun emo => (emo, index))
  | .left =>
      match checkedSub emoIndex 1 with
      | some index => do
          let emo ← okOr board[index]? .leftEmoNotFound
          return [(emo, index)]
      | none => .ok []
  | .all => .ok (otherEmos board emoIndex isActionEmoRetired)

def getMatchedEmoIndexsFromBoard (board : List BattleEmo) (emoIndex : Nat) (target : Target)
    (isActionEmoRetired : Bool) : Result (List Nat) :=
  match target with
  | .oneself => return if isActionEmoRetired then [] else [emoIndex]
  | .others destination typAndTriple => do
      let emosWithIndex ← getEmosWithIndex board emoIndex destination isActionEmoRetired
      return (emosWithIndex.filter fun (emo, _) =>
        isMatchedTypAndTripleForEmo typAndTriple emo).map Prod.snd

def getMatchedEmoIndexsFromBoardByTargetOrRandom (board : List BattleEmo) (emoIndex : Nat)
    (targetOrRandom : TargetOrRandom) (isActionEmoRetired : Bool) (rng : env.sampler.Rng) :
    Result (List Nat × env.sampler.Rng) :=
  match targetOrRandom with
  | .target target => do
      let indexes ← getMatchedEmoIndexsFromBoard board emoIndex target isActionEmoRetired
      return (indexes, rng)
  | .random typAndTriple count =>
      let candidates := ((otherEmos board emoIndex isActionEmoRetired).filter fun (emo, _) =>
        isMatchedTypAndTripleForEmo typAndTriple emo).map Prod.snd
      let (chosen, rng) := env.sampler.chooseMultipleFrom rng candidates count
      return env.sampler.shuffleAll rng chosen

/-! ## Changing emos -/

def increaseEmoStats (playerIndex : PlayerIndex) (attack health : Nat) (state : St env)
    (emoIndex : Nat) : Result (St env) := do
  if attack = 0 ∧ health = 0 then return state
  let emo ← state.boards.getEmoMut playerIndex emoIndex
  let calculatedAttack := saturatingAddU16 emo.attributes.attack attack
  let calculatedHealth := saturatingAddU16 emo.attributes.health health
  let emo := { emo with attributes :=
    { emo.attributes with attack := calculatedAttack, health := calculatedHealth } }
  let state := { state with boards := state.boards.setEmo playerIndex emoIndex emo }
  return state.addLog env (.increaseStats playerIndex emoIndex attack health
    calculatedAttack calculatedHealth)

def decreaseEmoStats (playerIndex : PlayerIndex) (attack health : Nat) (state : St env)
    (emoIndex : Nat) : Result (St env) := do
  if attack = 0 ∧ health = 0 then return state
  let emo ← state.boards.getEmoMut playerIndex emoIndex
  let calculatedAttack := max (emo.attributes.attack - attack) 1
  let calculatedHealth := max (emo.attributes.health - health) 1
  let emo := { emo with attributes :=
    { emo.attributes with attack := calculatedAttack, health := calculatedHealth } }
  let state := { state with boards := state.boards.setEmo playerIndex emoIndex emo }
  return state.addLog env (.decreaseStats playerIndex emoIndex attack health
    calculatedAttack calculatedHealth)

/-- `add_ability_to_emo`: the abilities after the call, `none` if they stay. -/
def addAbilityToEmo (abilities : List Ability) (battleAbility : Ability.Battle) :
    Option (List Ability) :=
  if u8Max ≤ abilities.length then none
  else
    match battleAbility with
    | .special _ =>
        if .battle battleAbility ∈ abilities then none
        else some (abilities ++ [.battle battleAbility])
    | .general _ => some (abilities ++ [.battle battleAbility])

/-- `get_emo_mut` followed by `add_ability_to_emo`. -/
def addAbilityToEmoAt (playerIndex : PlayerIndex) (ability : Ability.Battle) (state : St env)
    (emoIndex : Nat) : Result (St env) := do
  let emo ← state.boards.getEmoMut playerIndex emoIndex
  match addAbilityToEmo emo.attributes.abilities ability with
  | none => return state
  | some abilities =>
      let emo := { emo with attributes := { emo.attributes with abilities } }
      let state := { state with boards := state.boards.setEmo playerIndex emoIndex emo }
      return state.addLog env
        (.addBattleAbility playerIndex emoIndex ability emo.attributes.isTriple)

def increaseStats (playerIndex : PlayerIndex) (actionEmoIndex : Nat)
    (isActionEmoRetired isTripleAction : Bool) (targetOrRandom : TargetOrRandom)
    (attack health : Nat) (state : St env) : Result (St env) := do
  let (attack, health) := doubleAttackAndHealthIf isTripleAction attack health
  let (indexes, rng) ← getMatchedEmoIndexsFromBoardByTargetOrRandom env
    (state.getBoard playerIndex) actionEmoIndex targetOrRandom isActionEmoRetired state.rng
  indexes.foldlM (increaseEmoStats env playerIndex attack health) { state with rng }

def decreaseStats (playerIndex : PlayerIndex) (actionEmoIndex : Nat)
    (isActionEmoRetired isTripleAction : Bool) (targetOrRandom : TargetOrRandom)
    (attack health : Nat) (state : St env) : Result (St env) := do
  let (attack, health) := doubleAttackAndHealthIf isTripleAction attack health
  let (indexes, rng) ← getMatchedEmoIndexsFromBoardByTargetOrRandom env
    (state.getBoard playerIndex) actionEmoIndex targetOrRandom isActionEmoRetired state.rng
  indexes.foldlM (decreaseEmoStats env playerIndex attack health) { state with rng }

/-- The count of `increase_stats_by_emo_count`.  On the ally side it skips the
acting index whether or not the acting emo still stands there. -/
def countEmosForStats (boards : BattleBoards) (playerIndex : PlayerIndex) (actionEmoIndex : Nat)
    (side : Side) (countCondition : TypOptAndIsTripleOpt) : Nat :=
  match side with
  | .ally => ((boards.getBoard playerIndex).zipIdx.filter fun (emo, emoIndex) =>
      emoIndex ≠ actionEmoIndex && isMatchedTypAndTripleForEmo countCondition emo).length
  | .rival => ((boards.getBoard (switchPlayerIndex playerIndex)).filter fun emo =>
      isMatchedTypAndTripleForEmo countCondition emo).length

def increaseStatsByEmoCount (playerIndex : PlayerIndex) (actionEmoIndex : Nat)
    (isActionEmoRetired isTripleAction : Bool) (targetOrRandom : TargetOrRandom) (side : Side)
    (countCondition : TypOptAndIsTripleOpt) (attack health : Nat) (state : St env) :
    Result (St env) :=
  let count := countEmosForStats state.boards playerIndex actionEmoIndex side countCondition
  let muledAttack := saturatingMulU16 attack count
  let muledHealth := saturatingMulU16 health count
  increaseStats env playerIndex actionEmoIndex isActionEmoRetired isTripleAction targetOrRandom
    muledAttack muledHealth state

def addBattleAbilityRandom (playerIndex : PlayerIndex) (actionEmoIndex : Nat)
    (isActionEmoRetired isTripleAction : Bool) (ability : Ability.Battle)
    (typAndTriple : TypOptAndIsTripleOpt) (count : Nat) (state : St env) : Result (St env) :=
  let acceptsSpecial (emo : BattleEmo) : Bool :=
    match ability with
    | .special _ => .battle ability ∉ emo.attributes.abilities
    | .general _ => true
  let candidates := ((otherEmos (state.getBoard playerIndex) actionEmoIndex
    isActionEmoRetired).filter fun (emo, _) =>
      acceptsSpecial emo && isMatchedTypAndTripleForEmo typAndTriple emo).map Prod.snd
  let (chosen, rng) := env.sampler.chooseMultipleFrom state.rng candidates
    (count * if isTripleAction then 2 else 1)
  let (shuffled, rng) := env.sampler.shuffleAll rng chosen
  shuffled.foldlM (addAbilityToEmoAt env playerIndex ability) { state with rng }

def addBattleAbility (playerIndex : PlayerIndex) (actionEmoIndex : Nat)
    (isActionEmoRetired isTripleAction : Bool) (targetOrRandom : TargetOrRandom)
    (ability : Ability.Battle) (state : St env) : Result (St env) :=
  match targetOrRandom with
  | .target target => do
      let indexes ← getMatchedEmoIndexsFromBoard (state.getBoard playerIndex) actionEmoIndex
        target isActionEmoRetired
      indexes.foldlM (addAbilityToEmoAt env playerIndex ability) state
  | .random typAndTriple count =>
      addBattleAbilityRandom env playerIndex actionEmoIndex isActionEmoRetired isTripleAction
        ability typAndTriple count state

/-! ## Damage and retirement -/

def damageAllEmos (playerIndex : PlayerIndex) (damage : Nat) (state : St env) : Calls env :=
  ((state.getBoard playerIndex).map fun emo => .damageAllEmosOf playerIndex damage emo.id, state)

def damageAll (playerIndex : PlayerIndex) (isTripleAction : Bool) (side : Side) (damage : Nat)
    (state : St env) : Calls env :=
  let damage := if isTripleAction then saturatingMulU16 damage 2 else damage
  match side with
  | .ally => damageAllEmos env playerIndex damage state
  | .rival => damageAllEmos env (switchPlayerIndex playerIndex) damage state

def callEmoRetireRivalAbilities (playerIndex : PlayerIndex) (retiredEmo : BattleEmo)
    (state : St env) : Calls env :=
  let rivalIndex := switchPlayerIndex playerIndex
  ((state.boards.getBoardAbilities rivalIndex).filterMap fun entry =>
    match entry.ability with
    | .general (.asOneself (.rivalRetire typAndTriple) action) =>
        if isMatchedTypAndTripleForEmo typAndTriple retiredEmo then
          some (.callAbilityNormalActionAsOneself rivalIndex action entry.emoIndex none
            (some entry.ownerId))
        else none
    | _ => none, state)

def callEmoRetireBoardAbilities (playerIndex : PlayerIndex) (retiredEmoIndex : Nat)
    (retiredEmo : BattleEmo) (state : St env) : Calls env :=
  let boardAbilities := state.boards.getBoardAbilities playerIndex
  let asAlly := boardAbilities.filterMap fun entry =>
    match entry.ability with
    | .general (.asAlly (.allyRetire typAndTriple) action) =>
        if isMatchedTypAndTripleForEmo typAndTriple retiredEmo then
          some (Task.callAbilityGeneralAsAllyAction playerIndex action retiredEmoIndex
            (some retiredEmo) entry.emoIndex entry.ownerId)
        else none
    | _ => none
  let asOneself := boardAbilities.filterMap fun entry =>
    match entry.ability with
    | .general (.asOneself (.allyRetire typAndTriple) action) =>
        if isMatchedTypAndTripleForEmo typAndTriple retiredEmo then
          some (Task.callAbilityNormalActionAsOneself playerIndex action entry.emoIndex none
            (some entry.ownerId))
        else none
    | _ => none
  (asAlly ++ asOneself, state)

def retireAction? : Ability.Battle → Option NormalAction
  | .general (.asOneself .retire action) => some action
  | _ => none

def callEmoRetirePlayerAbilities (playerIndex : PlayerIndex) (retiredEmoIndex : Nat)
    (retiredEmo : BattleEmo) (state : St env) : Result (Calls env) := do
  let abilities ← retiredEmo.getAbilities
  let own := abilities.filterMap fun (_, ability) =>
    (retireAction? ability).map fun action =>
      Task.callAbilityNormalActionAsOneself playerIndex action retiredEmoIndex (some retiredEmo)
        none
  return (own ++ [.callEmoRetireBoardAbilities playerIndex retiredEmoIndex retiredEmo], state)

def retireEmo (playerIndex : PlayerIndex) (emoIndex : Nat) (state : St env) :
    Result (Calls env) := do
  let removedEmo ← okOr (state.getBoard playerIndex)[emoIndex]? .indexOutOfBounds
  let board := (state.getBoard playerIndex).eraseIdx emoIndex
  let state := { state with boards := state.boards.setBoard playerIndex board }
  let state := state.addLog env (.remove playerIndex emoIndex)
  let (calls, state) ← callEmoRetirePlayerAbilities env playerIndex emoIndex removedEmo state
  return (calls ++ [.callEmoRetireRivalAbilities playerIndex removedEmo], state)

def callShieldRemovedAbility (playerIndex : PlayerIndex) (shieldRemovedEmoIndex : Nat)
    (state : St env) : Result (Calls env) := do
  let shieldRemovedEmo ← state.boards.getEmo playerIndex shieldRemovedEmoIndex
  let calls := (state.boards.getBoardAbilities playerIndex).filterMap fun entry =>
    match entry.ability with
    | .general (.asOneself (.allyBattleAbilityRemoved typAndTriple excludesSameBase ability)
        action) =>
        if ability ≠ .special .shield then none
        else if isMatchedTypAndTriple typAndTriple shieldRemovedEmo.typ
            shieldRemovedEmo.attributes.isTriple then
          some (Task.callShieldRemovedAbilityOf playerIndex action entry.emoIndex
            excludesSameBase shieldRemovedEmo.baseId entry.ownerId)
        else none
    | _ => none
  return (calls, state)

def removeShield (playerIndex : PlayerIndex) (emoIndex shieldAbilityIndex : Nat)
    (state : St env) : Result (Calls env) := do
  let emo ← state.boards.getEmoMut playerIndex emoIndex
  let ability ← okOr emo.attributes.abilities[shieldAbilityIndex]? .indexOutOfBounds
  let abilities := emo.attributes.abilities.eraseIdx shieldAbilityIndex
  let emo := { emo with attributes := { emo.attributes with abilities } }
  let state := { state with boards := state.boards.setEmo playerIndex emoIndex emo }
  let battleAbility ← okOr (battleAbility? ability) .shouldBeBattleAbility
  let state := state.addLog env
    (.removeBattleAbility playerIndex emoIndex shieldAbilityIndex battleAbility)
  callShieldRemovedAbility env playerIndex emoIndex state

/-- `none` if the emo has no shield. -/
def removeShieldIfExist (playerIndex : PlayerIndex) (emoIndex : Nat) (state : St env) :
    Result (Option (Calls env)) := do
  let emo ← state.boards.getEmo playerIndex emoIndex
  let abilities ← emo.getAbilities
  match abilities.find? fun (_, ability) => ability = .special .shield with
  | some (abilityIndex, _) => some <$> removeShield env playerIndex emoIndex abilityIndex state
  | none => return none

/-- Returns whether the emo survived, and the calls made. -/
def damageEmo (damage : Nat) (playerIndex : PlayerIndex) (emoIndex : Nat) (state : St env) :
    Result (Bool × Calls env) := do
  match ← removeShieldIfExist env playerIndex emoIndex state with
  | some calls => return (true, calls)
  | none =>
      if damage = 0 then return (true, [], state)
      let emo ← state.boards.getEmoMut playerIndex emoIndex
      let health := emo.attributes.health - damage
      let state := state.addLog env (.damage playerIndex emoIndex damage health)
      if health = 0 then
        let calls ← retireEmo env playerIndex emoIndex state
        return (false, calls)
      else
        let emo := { emo with attributes := { emo.attributes with health } }
        return (true, [], { state with boards := state.boards.setEmo playerIndex emoIndex emo })

/-! ## Abilities -/

/-- The acting emo: the retired one, or the one at the index. -/
def getActionEmo (playerIndex : PlayerIndex) (emoIndex : Nat) (retiredEmoOpt : Option BattleEmo)
    (state : St env) : Result BattleEmo :=
  match retiredEmoOpt with
  | some retiredEmo => .ok retiredEmo
  | none => state.boards.getEmo playerIndex emoIndex

def callAbilityNormalAction (playerIndex : PlayerIndex) (action : NormalAction)
    (actionEmoIndex : Nat) (retiredActionEmoOpt : Option BattleEmo) (isTripleAction : Bool)
    (state : St env) : Result (Calls env) := do
  let actionEmo ← getActionEmo env playerIndex actionEmoIndex retiredActionEmoOpt state
  let isActionEmoRetired := retiredActionEmoOpt.isSome
  let newEmoIndex := if isActionEmoRetired then actionEmoIndex else actionEmoIndex + 1
  match action with
  | .setEmo side baseId =>
      setEmo env playerIndex newEmoIndex baseId isTripleAction actionEmo.attackAndSurvivedCount
        side state
  | .setEmosByAttackDiv side baseId divisor =>
      setEmosByAttackDiv env playerIndex actionEmo.attackAndSurvivedCount
        actionEmo.attributes.attack isTripleAction newEmoIndex baseId divisor side state
  | .increaseStats targetOrRandom attack health => do
      let state ← increaseStats env playerIndex actionEmoIndex isActionEmoRetired isTripleAction
        targetOrRandom attack health state
      return ([], state)
  | .decreaseStats targetOrRandom attack health => do
      let state ← decreaseStats env playerIndex actionEmoIndex isActionEmoRetired isTripleAction
        targetOrRandom attack health state
      return ([], state)
  | .increaseStatsByEmoCount side targetOrRandom countCondition attack health => do
      let state ← increaseStatsByEmoCount env playerIndex actionEmoIndex isActionEmoRetired
        isTripleAction targetOrRandom side countCondition attack health state
      return ([], state)
  | .addBattleAbility targetOrRandom ability => do
      let state ← addBattleAbility env playerIndex actionEmoIndex isActionEmoRetired
        isTripleAction targetOrRandom ability state
      return ([], state)
  | .damageAll side damage => return damageAll env playerIndex isTripleAction side damage state

def callAbilityNormalActionAsOneself (playerIndex : PlayerIndex) (action : NormalAction)
    (actionEmoIndex : Nat) (retiredActionEmoOpt : Option BattleEmo) (state : St env) :
    Result (Calls env) := do
  let actionEmo ← getActionEmo env playerIndex actionEmoIndex retiredActionEmoOpt state
  callAbilityNormalAction env playerIndex action actionEmoIndex retiredActionEmoOpt
    actionEmo.attributes.isTriple state

def callAbilityAsAllyAction (playerIndex : PlayerIndex) (asAllyAction : AsAllyAction)
    (allyEmoIndex : Nat) (retiredAllyEmoOpt : Option BattleEmo) (oneselfEmoIndex : Nat)
    (state : St env) : Result (Calls env) :=
  match asAllyAction with
  | .triggerRetireActions => do
      let allyEmo ← getActionEmo env playerIndex allyEmoIndex retiredAllyEmoOpt state
      let oneselfEmo ← state.boards.getEmo playerIndex oneselfEmoIndex
      let abilities ← allyEmo.getAbilities
      let calls := abilities.flatMap fun (_, ability) =>
        match retireAction? ability with
        | some action =>
            List.replicate (if oneselfEmo.attributes.isTriple then 2 else 1)
              (.callAbilityNormalActionAsOneself playerIndex action allyEmoIndex
                retiredAllyEmoOpt none)
        | none => []
      return (calls, state)

def callAbilityGeneralAsAllyAction (playerIndex : PlayerIndex) (action : GeneralAsAllyAction)
    (allyEmoIndex : Nat) (retiredAllyEmoOpt : Option BattleEmo) (oneselfEmoIndex : Nat)
    (state : St env) : Result (Calls env) :=
  match action with
  | .oneselfTripleNormal normalAction => do
      let oneselfEmo ← state.boards.getEmo playerIndex oneselfEmoIndex
      callAbilityNormalAction env playerIndex normalAction allyEmoIndex retiredAllyEmoOpt
        oneselfEmo.attributes.isTriple state
  | .custom asAllyAction =>
      callAbilityAsAllyAction env playerIndex asAllyAction allyEmoIndex retiredAllyEmoOpt
        oneselfEmoIndex state

def callShieldRemovedAbilityOf (playerIndex : PlayerIndex) (action : NormalAction)
    (emoIndex : Nat) (excludesSameBase : Bool) (shieldRemovedEmoBaseId : Nat) (state : St env) :
    Result (Calls env) := do
  if excludesSameBase then
    let emo ← state.boards.getEmo playerIndex emoIndex
    if shieldRemovedEmoBaseId = emo.baseId then return ([], state)
  callAbilityNormalActionAsOneself env playerIndex action emoIndex none state

def callPreAbilitiesOf (playerIndex : PlayerIndex) (state : St env) : Calls env :=
  ((state.boards.getBoardAbilities playerIndex).filterMap fun entry =>
    match entry.ability with
    | .general (.asOneself .pre action) =>
        some (.callAbilityNormalActionAsOneself playerIndex action entry.emoIndex none
          (some entry.ownerId))
    | _ => none, state)

/-- The calls of `call_pre_abilities`. -/
def callPreAbilities (firstAttackPlayerIndex : PlayerIndex) : List Task :=
  [.callPreAbilitiesOf firstAttackPlayerIndex,
    .callPreAbilitiesOf (switchPlayerIndex firstAttackPlayerIndex)]

/-! ## Attacks -/

/-- The scan of `get_attack_emo_index` over the emos right of the first. -/
def getAttackEmoIndexFrom (index minAttackAndSurvivedCount : Nat) :
    List (BattleEmo × Nat) → Nat
  | [] => index
  | (emo, i) :: rest =>
      if emo.attackAndSurvivedCount < minAttackAndSurvivedCount then
        getAttackEmoIndexFrom i emo.attackAndSurvivedCount rest
      else getAttackEmoIndexFrom index minAttackAndSurvivedCount rest

def getAttackEmoIndex (emos : List BattleEmo) : Result Nat := do
  let first ← okOr emos[0]? .indexOutOfBounds
  return getAttackEmoIndexFrom 0 first.attackAndSurvivedCount (emos.zipIdx.drop 1)

/-- The scan of `get_lowest_attack_emo_index` over the emos right of the first. -/
def getLowestAttackEmoIndexesFrom (lowestAttackEmoIndexes : List Nat) (lowestAttack : Nat) :
    List (BattleEmo × Nat) → List Nat
  | [] => lowestAttackEmoIndexes
  | (emo, i) :: rest =>
      let attack := emo.attributes.attack
      let indexes := if attack < lowestAttack then [i] else lowestAttackEmoIndexes
      let lowest := if attack < lowestAttack then attack else lowestAttack
      let indexes := if lowest = attack then indexes ++ [i] else indexes
      getLowestAttackEmoIndexesFrom indexes lowest rest

def getLowestAttackEmoIndex (emos : List BattleEmo) (rng : env.sampler.Rng) :
    Result (Nat × env.sampler.Rng) := do
  let first ← okOr emos[0]? .firstEmoNotFound
  let lowestAttackEmoIndexes :=
    getLowestAttackEmoIndexesFrom [0] first.attributes.attack (emos.zipIdx.drop 1)
  let (chosen, rng) := env.sampler.chooseFrom rng lowestAttackEmoIndexes
  let index ← okOr chosen .chooseNoneForLowest
  return (index, rng)

def getAttractiveEmoIndex (emos : List BattleEmo) (rng : env.sampler.Rng) :
    Option Nat × env.sampler.Rng :=
  let attractiveEmoIndexes := (emos.zipIdx.filter fun (emo, _) =>
    .battle (.special .attractive) ∈ emo.attributes.abilities).map Prod.snd
  env.sampler.chooseFrom rng attractiveEmoIndexes

def getDefenseEmoIndex (emos : List BattleEmo) (isLowestAttack : Bool) (rng : env.sampler.Rng) :
    Result (Nat × env.sampler.Rng) := do
  if isLowestAttack then getLowestAttackEmoIndex env emos rng
  else
    match getAttractiveEmoIndex env emos rng with
    | (some attractiveEmoIndex, rng) => return (attractiveEmoIndex, rng)
    | (none, rng) => do
        ensure (0 < emos.length) (.panicked "cannot sample empty range")
        return env.sampler.genRange rng emos.length

def getAttackAndDefenseEmoIndexes (attackPlayerIndex : PlayerIndex) (state : St env) :
    Result (Nat × Nat × St env) := do
  let defensePlayerIndex := switchPlayerIndex attackPlayerIndex
  let attackEmoIndex ← getAttackEmoIndex (state.getBoard attackPlayerIndex)
  let attackEmo ← state.boards.getEmo attackPlayerIndex attackEmoIndex
  let abilities ← attackEmo.getAbilities
  let isLowestAttack := abilities.any fun (_, ability) => ability = .special .attackLowestAttack
  let (defenseEmoIndex, rng) ←
    getDefenseEmoIndex env (state.getBoard defensePlayerIndex) isLowestAttack state.rng
  return (attackEmoIndex, defenseEmoIndex, { state with rng })

def attackDamage (attackPlayerIndex : PlayerIndex) (attackEmoIndex defenseEmoIndex : Nat)
    (state : St env) : Result (Calls env) := do
  let defensePlayerIndex := switchPlayerIndex attackPlayerIndex
  let attackEmo ← state.boards.getEmo attackPlayerIndex attackEmoIndex
  let defenseEmo ← state.boards.getEmo defensePlayerIndex defenseEmoIndex
  let (_, calls, state) ←
    damageEmo env attackEmo.attributes.attack defensePlayerIndex defenseEmoIndex state
  return (calls ++ [.attackDamageCounter attackPlayerIndex attackEmoIndex
    defenseEmo.attributes.attack attackEmo.id], state)

def attackDamageCounter (attackPlayerIndex : PlayerIndex)
    (attackEmoIndex defenseEmoAttack attackEmoId : Nat) (state : St env) :
    Result (Calls env) := do
  if state.boards.hasEmoAtIndex attackPlayerIndex attackEmoIndex then
    let (survived, calls, state) ←
      damageEmo env defenseEmoAttack attackPlayerIndex attackEmoIndex state
    if survived then
      return (calls ++ [.countAttackAndSurvived attackPlayerIndex attackEmoIndex attackEmoId],
        state)
    else return (calls, state)
  else return ([], state)

def countAttackAndSurvived (attackPlayerIndex : PlayerIndex) (attackEmoIndex : Nat)
    (state : St env) : Result (Calls env) := do
  let emo ← state.boards.getEmoMut attackPlayerIndex attackEmoIndex
  let attackAndSurvivedCount ← addU8 emo.attackAndSurvivedCount 1
  let emo := { emo with attackAndSurvivedCount }
  return ([], { state with boards := state.boards.setEmo attackPlayerIndex attackEmoIndex emo })

def attack (attackPlayerIndex : PlayerIndex) (state : St env) : Result (Calls env) := do
  let (attackEmoIndex, defenseEmoIndex, state) ←
    getAttackAndDefenseEmoIndexes env attackPlayerIndex state
  let state := state.addLog env (.attack attackPlayerIndex attackEmoIndex defenseEmoIndex)
  return ([.attackDamage attackPlayerIndex attackEmoIndex defenseEmoIndex], state)

/-! ## The march -/

def Tick.new (firstAttackPlayerIndex : PlayerIndex) : Tick where
  num := 1
  firstAttackPlayerIndex := firstAttackPlayerIndex

def Tick.attackPlayerIndex (tick : Tick) : PlayerIndex :=
  if tick.num % 2 = 1 then tick.firstAttackPlayerIndex
  else switchPlayerIndex tick.firstAttackPlayerIndex

def Tick.next (tick : Tick) : Result Tick :=
  if tick.num + 1 ≤ u8Max then .ok { tick with num := tick.num + 1 }
  else .error .reachedMaximumTick

def sumGrades (emos : List BattleEmo) : Result Nat :=
  emos.foldlM (fun sum emo => do
    let base ← env.emoBases.find emo.baseId
    return saturatingAddU8 sum base.grade) 0

def getRemainingGradesIfFinished (boards : BattleBoards) : Result (Option (Nat × Nat)) := do
  if boards.isEmptyBoard .zero || boards.isEmptyBoard .one then
    let grades0 ← sumGrades env (boards.getBoard .zero)
    let grades1 ← sumGrades env (boards.getBoard .one)
    return some (grades0, grades1)
  else return none

def marchBegin (tick : Tick) (state : St env) : Result (Calls env) := do
  match ← getRemainingGradesIfFinished env state.boards with
  | some _ => return ([], state)
  | none => return ([.marchLoop tick], state)

def marchLoop (tick : Tick) (state : St env) : Calls env :=
  ([.attack tick.attackPlayerIndex, .marchNext tick], state)

def marchNext (tick : Tick) (state : St env) : Result (Calls env) := do
  match ← getRemainingGradesIfFinished env state.boards with
  | some _ => return ([], state)
  | none => do
      let tick ← tick.next
      return ([.marchLoop tick], state)

/-- What a task does. -/
def perform : CallMachine.Machine Task (St env) MtcError
  | .callPreAbilitiesOf playerIndex, state => .ok (callPreAbilitiesOf env playerIndex state)
  | .attack attackPlayerIndex, state => attack env attackPlayerIndex state
  | .attackDamage attackPlayerIndex attackEmoIndex defenseEmoIndex, state =>
      attackDamage env attackPlayerIndex attackEmoIndex defenseEmoIndex state
  | .attackDamageCounter attackPlayerIndex attackEmoIndex defenseEmoAttack attackEmoId, state =>
      attackDamageCounter env attackPlayerIndex attackEmoIndex defenseEmoAttack attackEmoId state
  | .countAttackAndSurvived attackPlayerIndex attackEmoIndex _, state =>
      countAttackAndSurvived env attackPlayerIndex attackEmoIndex state
  | .callAbilityNormalActionAsOneself playerIndex action actionEmoIndex retiredActionEmoOpt _,
      state =>
      callAbilityNormalActionAsOneself env playerIndex action actionEmoIndex retiredActionEmoOpt
        state
  | .callAbilityGeneralAsAllyAction playerIndex action allyEmoIndex retiredAllyEmoOpt
      oneselfEmoIndex _, state =>
      callAbilityGeneralAsAllyAction env playerIndex action allyEmoIndex retiredAllyEmoOpt
        oneselfEmoIndex state
  | .callShieldRemovedAbilityOf playerIndex action emoIndex excludesSameBase
      shieldRemovedEmoBaseId _, state =>
      callShieldRemovedAbilityOf env playerIndex action emoIndex excludesSameBase
        shieldRemovedEmoBaseId state
  | .callEmoRetireBoardAbilities playerIndex retiredEmoIndex retiredEmo, state =>
      .ok (callEmoRetireBoardAbilities env playerIndex retiredEmoIndex retiredEmo state)
  | .callEmoRetireRivalAbilities playerIndex retiredEmo, state =>
      .ok (callEmoRetireRivalAbilities env playerIndex retiredEmo state)
  | .setEmo playerIndex emoIndex baseId isTriple attackAndSurvivedCount side, state =>
      setEmo env playerIndex emoIndex baseId isTriple attackAndSurvivedCount side state
  | .damageAllEmosOf playerIndex damage emoId, state =>
      match state.boards.findEmoIndexById playerIndex emoId with
      | some emoIndex => Prod.snd <$> damageEmo env damage playerIndex emoIndex state
      | none => .ok ([], state)
  | .marchBegin tick, state => marchBegin env tick state
  | .marchLoop tick, state => .ok (marchLoop env tick state)
  | .marchNext tick, state => marchNext env tick state

end EmojiBattler.Mtc.Battle
