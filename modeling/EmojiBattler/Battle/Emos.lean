import EmojiBattler.Library.Contracts
import EmojiBattler.Battle.Changes

/-! # What a task keeps of every emo

A property of the single emos survives a task if it survives an assignment to
one emo and holds of every emo that the task can set.  The property may differ
between the two boards. -/

namespace EmojiBattler.Mtc.Battle

open EmojiBattler.Emo Contracts
open EmojiBattler.Emo.Ability (Side TargetOrRandom)
open EmojiBattler.Emo.Ability.Battle (NormalAction)

/-- The player whose board an action of `playerIndex` is about. -/
def playerOn (playerIndex : PlayerIndex) : Side → PlayerIndex
  | .ally => playerIndex
  | .rival => switchPlayerIndex playerIndex

/-- All emos have the property of their board. -/
def BattleBoards.Every (boards : BattleBoards) (P : PlayerIndex → BattleEmo → Prop) : Prop :=
  ∀ playerIndex, ∀ emo ∈ boards.getBoard playerIndex, P playerIndex emo

namespace BattleBoards.Every

variable {P : PlayerIndex → BattleEmo → Prop} {boards : BattleBoards}
variable {playerIndex : PlayerIndex} {position : Nat}

theorem setBoard {board : List BattleEmo} (every : boards.Every P)
    (new : ∀ emo ∈ board, P playerIndex emo) :
    (boards.setBoard playerIndex board).Every P := by
  intro other emo member
  by_cases same : other = playerIndex
  · subst same
    rw [getBoard_setBoard] at member
    exact new emo member
  · rw [getBoard_setBoard_of_ne same] at member
    exact every other emo member

theorem setEmo {emo changed : BattleEmo} (every : boards.Every P)
    (found : (boards.getBoard playerIndex)[position]? = some emo)
    (kept : P playerIndex emo → P playerIndex changed) :
    (boards.setEmo playerIndex position changed).Every P := by
  refine every.setBoard fun candidate member => ?_
  rcases List.mem_or_eq_of_mem_set member with old | rfl
  · exact every playerIndex candidate old
  · exact kept (every playerIndex emo (List.mem_of_getElem? found))

theorem insert {emo : BattleEmo} (every : boards.Every P) (new : P playerIndex emo) :
    (boards.setBoard playerIndex
      ((boards.getBoard playerIndex).insertIdx position emo)).Every P := by
  refine every.setBoard fun candidate member => ?_
  rcases List.eq_or_mem_of_mem_insertIdx member with rfl | old
  · exact new
  · exact every playerIndex candidate old

theorem erase (every : boards.Every P) :
    (boards.setBoard playerIndex
      ((boards.getBoard playerIndex).eraseIdx position)).Every P :=
  every.setBoard fun candidate member =>
    every playerIndex candidate (List.mem_of_mem_eraseIdx member)

end BattleBoards.Every

/-- The task can set an emo of this base for this player. -/
def Task.Sets (task : Task) (player : PlayerIndex) (baseId : Nat) : Prop :=
  (∃ playerIndex side actionEmoIndex retiredActionEmoOpt, player = playerOn playerIndex side ∧
    task.act? = some (playerIndex, .setEmo side baseId, actionEmoIndex, retiredActionEmoOpt)) ∨
  ∃ playerIndex emoIndex isTriple attackAndSurvivedCount side,
    player = playerOn playerIndex side ∧
    task = .setEmo playerIndex emoIndex baseId isTriple attackAndSurvivedCount side

/-- An attack count that the task can give to a new emo. -/
def Seen (P : PlayerIndex → BattleEmo → Prop) (task : Task) (count : Nat) : Prop :=
  count = 0 ∨ (∃ playerIndex emo, P playerIndex emo ∧ emo.attackAndSurvivedCount = count) ∨
    task.Carries count

theorem Counted.seen {P : PlayerIndex → BattleEmo → Prop} {task : Task} {boards : BattleBoards}
    {count : Nat} (counted : Counted task boards count) (every : boards.Every P) :
    Seen P task count := by
  rcases counted with zero | ⟨playerIndex, emo, member, same⟩ | carries
  · exact .inl zero
  · exact .inr (.inl ⟨playerIndex, emo, every playerIndex emo member, same⟩)
  · exact .inr (.inr carries)

/-- A property of emos that survives every assignment of the task. -/
structure KeptBy (env : Env) (task : Task) (P : PlayerIndex → BattleEmo → Prop) : Prop where
  stats : ∀ {playerIndex emo attack health}, P playerIndex emo →
    (1 ≤ emo.attributes.attack → 1 ≤ attack) → (1 ≤ emo.attributes.health → 1 ≤ health) →
      P playerIndex { emo with attributes := { emo.attributes with attack, health } }
  count : ∀ {playerIndex emo attackPlayerIndex attackEmoIndex attackEmoId},
    task = .countAttackAndSurvived attackPlayerIndex attackEmoIndex attackEmoId →
      P playerIndex emo →
        P playerIndex { emo with attackAndSurvivedCount := emo.attackAndSurvivedCount + 1 }
  shield : ∀ {playerIndex emo} abilityIndex, P playerIndex emo →
    P playerIndex { emo with attributes :=
      { emo.attributes with abilities := emo.attributes.abilities.eraseIdx abilityIndex } }
  ability : ∀ {playerIndex targetOrRandom ability actionEmoIndex retiredActionEmoOpt emo},
    task.act? = some (playerIndex, .addBattleAbility targetOrRandom ability, actionEmoIndex,
      retiredActionEmoOpt) → emo.attributes.abilities.length < u8Max → P playerIndex emo →
      P playerIndex { emo with attributes :=
        { emo.attributes with abilities := emo.attributes.abilities ++ [.battle ability] } }
  set : ∀ {player baseId base attackAndSurvivedCount} generatedIds isTriple,
    task.Sets player baseId → env.emoBases baseId = some base →
    Seen P task attackAndSurvivedCount →
      P player { BattleEmo.newWithBase generatedIds base isTriple with attackAndSurvivedCount }

variable {env : Env} {state after : St env} {calls : List Task}

/-! ## Damage -/

theorem Harm.every {P : PlayerIndex → BattleEmo → Prop} {task : Task} {damage : Nat}
    {playerIndex : PlayerIndex} {emoIndex : Nat} {before after : BattleBoards} {survived : Bool}
    (kept : KeptBy env task P) (harm : Harm damage playerIndex emoIndex before survived after)
    (every : before.Every P) : after.Every P := by
  cases harm with
  | @shield emo abilityIndex found => exact every.setEmo found (kept.shield abilityIndex)
  | nothing => exact every
  | wounded found alive => exact every.setEmo found fun emo => kept.stats emo id fun _ => alive
  | retired => exact every.erase

/-! ## Actions -/

theorem foldlM_every {P : PlayerIndex → BattleEmo → Prop} {f : St env → Nat → Result (St env)}
    (step : ∀ {state emoIndex after}, f state emoIndex = .ok after → state.boards.Every P →
      after.boards.Every P)
    {indexes : List Nat} (performed : indexes.foldlM f state = .ok after)
    (every : state.boards.Every P) : after.boards.Every P :=
  (@Meets.foldlM _ _ _ _ (fun state : St env => state.boards.Every P) _ _ _ every
    fun _ _ _ holds => .of_result fun _ performed => step performed holds).result performed

/-! ## Setting emos -/

theorem addEmo_every {P : PlayerIndex → BattleEmo → Prop} {playerIndex : PlayerIndex}
    {emoIndex : Nat} {emo : BattleEmo} (new : P playerIndex emo)
    (performed : addEmo env playerIndex emoIndex emo state = .ok (calls, after))
    (every : state.boards.Every P) : after.boards.Every P := by
  rcases addEmo_cases performed with ⟨_, _, rfl⟩ | ⟨_, _, boards, _⟩
  · exact every
  · rw [boards]
    exact every.insert new

section Acting

variable {P : PlayerIndex → BattleEmo → Prop} {task : Task} {playerIndex : PlayerIndex}
variable {actionEmoIndex : Nat} {isActionEmoRetired isTripleAction : Bool}
variable {targetOrRandom : TargetOrRandom} {attack health emoIndex : Nat}
variable (kept : KeptBy env task P)

include kept

theorem increaseEmoStats_every
    (performed : increaseEmoStats env playerIndex attack health state emoIndex = .ok after)
    (every : state.boards.Every P) : after.boards.Every P := by
  unfold increaseEmoStats at performed
  split at performed
  · cases performed
    exact every
  · simp only [Result.bind_eq_ok_iff, BattleBoards.getEmoMut_eq_ok_iff,
      Result.pure_eq_ok_iff] at performed
    obtain ⟨emo, found, rfl⟩ := performed
    rw [BattleState.addLog_boards]
    refine every.setEmo found fun emo => kept.stats emo ?_ ?_
    all_goals
      unfold saturatingAddU16 u16Max
      omega

theorem decreaseEmoStats_every
    (performed : decreaseEmoStats env playerIndex attack health state emoIndex = .ok after)
    (every : state.boards.Every P) : after.boards.Every P := by
  unfold decreaseEmoStats at performed
  split at performed
  · cases performed
    exact every
  · simp only [Result.bind_eq_ok_iff, BattleBoards.getEmoMut_eq_ok_iff,
      Result.pure_eq_ok_iff] at performed
    obtain ⟨emo, found, rfl⟩ := performed
    rw [BattleState.addLog_boards]
    exact every.setEmo found fun emo =>
      kept.stats emo (fun _ => Nat.le_max_right _ _) fun _ => Nat.le_max_right _ _

theorem increaseStats_every
    (performed : increaseStats env playerIndex actionEmoIndex isActionEmoRetired isTripleAction
      targetOrRandom attack health state = .ok after) (every : state.boards.Every P) :
    after.boards.Every P := by
  simp only [increaseStats, Result.bind_eq_ok_iff] at performed
  obtain ⟨⟨indexes, rng⟩, _, performed⟩ := performed
  exact foldlM_every (increaseEmoStats_every kept) performed every

theorem decreaseStats_every
    (performed : decreaseStats env playerIndex actionEmoIndex isActionEmoRetired isTripleAction
      targetOrRandom attack health state = .ok after) (every : state.boards.Every P) :
    after.boards.Every P := by
  simp only [decreaseStats, Result.bind_eq_ok_iff] at performed
  obtain ⟨⟨indexes, rng⟩, _, performed⟩ := performed
  exact foldlM_every (decreaseEmoStats_every kept) performed every

theorem addAbilityToEmoAt_every {ability : Ability.Battle} {target : TargetOrRandom}
    {retiredActionEmoOpt : Option BattleEmo}
    (acts : task.act? = some (playerIndex, .addBattleAbility target ability, actionEmoIndex,
      retiredActionEmoOpt))
    (performed : addAbilityToEmoAt env playerIndex ability state emoIndex = .ok after)
    (every : state.boards.Every P) : after.boards.Every P := by
  simp only [addAbilityToEmoAt, Result.bind_eq_ok_iff,
    BattleBoards.getEmoMut_eq_ok_iff] at performed
  obtain ⟨emo, found, performed⟩ := performed
  split at performed
  · cases performed
    exact every
  · rename_i abilities added
    cases performed
    obtain ⟨few, rfl⟩ := addAbilityToEmo_some added
    rw [BattleState.addLog_boards]
    exact every.setEmo found (kept.ability acts few)

theorem addBattleAbility_every {ability : Ability.Battle}
    {retiredActionEmoOpt : Option BattleEmo}
    (acts : task.act? = some (playerIndex, .addBattleAbility targetOrRandom ability,
      actionEmoIndex, retiredActionEmoOpt))
    (performed : addBattleAbility env playerIndex actionEmoIndex isActionEmoRetired
      isTripleAction targetOrRandom ability state = .ok after) (every : state.boards.Every P) :
    after.boards.Every P := by
  have looped : ∃ (indexes : List Nat) (rng : env.sampler.Rng),
      indexes.foldlM (addAbilityToEmoAt env playerIndex ability) { state with rng } =
        .ok after := by
    cases targetOrRandom with
    | target target =>
        simp only [addBattleAbility, Result.bind_eq_ok_iff] at performed
        obtain ⟨indexes, _, performed⟩ := performed
        exact ⟨indexes, state.rng, performed⟩
    | random => exact ⟨_, _, performed⟩
  obtain ⟨indexes, rng, performed⟩ := looped
  exact foldlM_every (addAbilityToEmoAt_every kept acts) performed every

theorem setEmo_every {baseId attackAndSurvivedCount : Nat} {isTriple : Bool} {side : Side}
    (sets : task.Sets (playerOn playerIndex side) baseId)
    (counted : Counted task state.boards attackAndSurvivedCount)
    (performed : setEmo env playerIndex emoIndex baseId isTriple attackAndSurvivedCount side
      state = .ok (calls, after)) (every : state.boards.Every P) : after.boards.Every P := by
  simp only [setEmo, Result.bind_eq_ok_iff, Emo.Bases.find_eq_ok_iff] at performed
  obtain ⟨base, found, performed⟩ := performed
  cases side with
  | ally => exact addEmo_every (kept.set _ _ sets found (counted.seen every)) performed every
  | rival =>
      refine addEmo_every (kept.set _ _ sets found ?_) performed every
      -- The new rival counts as the last emo of its board.
      cases last : (state.getBoard (switchPlayerIndex playerIndex)).getLast? with
      | some emo =>
          exact .inr (.inl ⟨_, emo, every _ emo (List.mem_of_getLast? last), rfl⟩)
      | none => exact .inl rfl

/-! ## Tasks -/

theorem callAbilityNormalAction_every {action : NormalAction}
    {retiredActionEmoOpt : Option BattleEmo}
    (acts : task.act? = some (playerIndex, action, actionEmoIndex, retiredActionEmoOpt))
    (performed : callAbilityNormalAction env playerIndex action actionEmoIndex
      retiredActionEmoOpt isTripleAction state = .ok (calls, after))
    (every : state.boards.Every P) : after.boards.Every P := by
  simp only [callAbilityNormalAction, Result.bind_eq_ok_iff] at performed
  obtain ⟨actionEmo, found, performed⟩ := performed
  cases action with
  | setEmo side baseId =>
      have counted := getActionEmo_counted
        (fun emo same => (Task.of_act? acts).2.trans same) found
      exact setEmo_every kept (.inl ⟨_, _, _, _, rfl, acts⟩) counted performed every
  | setEmosByAttackDiv side baseId divisor =>
      simp only [setEmosByAttackDiv, Result.bind_eq_ok_iff, Result.pure_eq_ok_iff,
        Prod.mk.injEq] at performed
      obtain ⟨_, _, _, rfl⟩ := performed
      exact every
  | damageAll side damage =>
      cases side with
      | ally | rival =>
          cases performed
          exact every
  | increaseStats targetOrRandom attack health =>
      simp only [Result.bind_eq_ok_iff, Result.pure_eq_ok_iff, Prod.mk.injEq] at performed
      obtain ⟨_, performed, _, rfl⟩ := performed
      exact increaseStats_every kept performed every
  | decreaseStats targetOrRandom attack health =>
      simp only [Result.bind_eq_ok_iff, Result.pure_eq_ok_iff, Prod.mk.injEq] at performed
      obtain ⟨_, performed, _, rfl⟩ := performed
      exact decreaseStats_every kept performed every
  | increaseStatsByEmoCount side targetOrRandom countCondition attack health =>
      simp only [Result.bind_eq_ok_iff, Result.pure_eq_ok_iff, Prod.mk.injEq] at performed
      obtain ⟨_, performed, _, rfl⟩ := performed
      exact increaseStats_every kept performed every
  | addBattleAbility targetOrRandom ability =>
      simp only [Result.bind_eq_ok_iff, Result.pure_eq_ok_iff, Prod.mk.injEq] at performed
      obtain ⟨_, performed, _, rfl⟩ := performed
      exact addBattleAbility_every kept acts performed every

theorem perform_every (performed : perform env task state = .ok (calls, after))
    (every : state.boards.Every P) : after.boards.Every P := by
  cases perform_deed performed with
  | none _ boards => rwa [boards]
  | damage damaged => exact (damageEmo_harm damaged).every kept every
  | action acts performed => exact callAbilityNormalAction_every kept acts performed every
  | set sets performed =>
      exact setEmo_every kept (.inr ⟨_, _, _, _, _, rfl, sets⟩)
        (.inr (.inr (.inr ⟨_, _, _, _, _, sets⟩))) performed every
  | count counts found counted =>
      subst counted
      exact every.setEmo found (kept.count counts)

end Acting

end EmojiBattler.Mtc.Battle
