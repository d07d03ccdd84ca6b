import EmojiBattler.Mtc.DataErrors
import EmojiBattler.Battle.Failures

/-! # Legal abilities in a battle

A legal ability divides by no zero and sets no unknown emo, whatever boards it
meets. -/

namespace EmojiBattler.Mtc.Battle

open EmojiBattler.Emo Sampling CallMachine Contracts
open EmojiBattler.Emo.Ability (Side Destination Target TargetOrRandom TypOptAndIsTripleOpt)
open EmojiBattler.Emo.Ability.Battle (NormalAction GeneralAsAllyAction AsAllyAction)

variable {env : Env} {state : St env} {playerIndex : PlayerIndex} {emoIndex : Nat}

/-! ## Lookups -/

theorem excused_getEmo {boards : BattleBoards} : Excused (boards.getEmo playerIndex emoIndex) :=
  excused_okOr (by trivial)

theorem excused_getEmoMut {boards : BattleBoards} :
    Excused (boards.getEmoMut playerIndex emoIndex) :=
  excused_okOr (by trivial)

theorem excused_getAbilities {emo : BattleEmo} : Excused emo.getAbilities :=
  sound_zipU8.bind fun _ _ => trivial

theorem excused_getActionEmo {retiredEmoOpt : Option BattleEmo} :
    Excused (getActionEmo env playerIndex emoIndex retiredEmoOpt state) := by
  cases retiredEmoOpt with
  | none => exact excused_getEmo
  | some retiredEmo => trivial

theorem excused_getMatchedEmoIndexsFromBoard {board : List BattleEmo} {target : Target}
    {isActionEmoRetired : Bool} :
    Excused (getMatchedEmoIndexsFromBoard board emoIndex target isActionEmoRetired) := by
  cases target with
  | oneself => trivial
  | others destination typAndTriple =>
      have directed : Excused (getEmosWithIndex board emoIndex destination isActionEmoRetired) := by
        cases destination with
        | right | all => trivial
        | left =>
            unfold getEmosWithIndex
            dsimp only
            split
            · exact (excused_okOr (by trivial)).bind fun _ => trivial
            · trivial
      exact directed.bind fun _ => trivial

theorem excused_matched {board : List BattleEmo} {targetOrRandom : TargetOrRandom}
    {isActionEmoRetired : Bool} {rng : env.sampler.Rng} :
    Excused (getMatchedEmoIndexsFromBoardByTargetOrRandom env board emoIndex targetOrRandom
      isActionEmoRetired rng) := by
  cases targetOrRandom with
  | target target => exact excused_getMatchedEmoIndexsFromBoard.bind fun _ => trivial
  | random typAndTriple count => trivial

/-! ## Changing emos -/

theorem excused_increaseEmoStats {attack health : Nat} :
    Excused (increaseEmoStats env playerIndex attack health state emoIndex) := by
  unfold increaseEmoStats
  split
  · trivial
  · exact excused_getEmoMut.bind fun _ => trivial

theorem excused_decreaseEmoStats {attack health : Nat} :
    Excused (decreaseEmoStats env playerIndex attack health state emoIndex) := by
  unfold decreaseEmoStats
  split
  · trivial
  · exact excused_getEmoMut.bind fun _ => trivial

theorem excused_addAbilityToEmoAt {ability : Ability.Battle} :
    Excused (addAbilityToEmoAt env playerIndex ability state emoIndex) := by
  refine excused_getEmoMut.bind fun emo => ?_
  split <;> trivial

theorem excused_increaseStats {isActionEmoRetired isTripleAction : Bool}
    {targetOrRandom : TargetOrRandom} {attack health : Nat} :
    Excused (increaseStats env playerIndex emoIndex isActionEmoRetired isTripleAction
      targetOrRandom attack health state) :=
  excused_matched.bind fun _ => excused_foldlM fun _ _ => excused_increaseEmoStats

theorem excused_decreaseStats {isActionEmoRetired isTripleAction : Bool}
    {targetOrRandom : TargetOrRandom} {attack health : Nat} :
    Excused (decreaseStats env playerIndex emoIndex isActionEmoRetired isTripleAction
      targetOrRandom attack health state) :=
  excused_matched.bind fun _ => excused_foldlM fun _ _ => excused_decreaseEmoStats

theorem excused_addBattleAbility {isActionEmoRetired isTripleAction : Bool}
    {targetOrRandom : TargetOrRandom} {ability : Ability.Battle} :
    Excused (addBattleAbility env playerIndex emoIndex isActionEmoRetired isTripleAction
      targetOrRandom ability state) := by
  cases targetOrRandom with
  | target target =>
      exact excused_getMatchedEmoIndexsFromBoard.bind fun _ =>
        excused_foldlM fun _ _ => excused_addAbilityToEmoAt
  | random typAndTriple count => exact excused_foldlM fun _ _ => excused_addAbilityToEmoAt

/-! ## Setting emos -/

theorem excused_addEmo {emo : BattleEmo} : Excused (addEmo env playerIndex emoIndex emo state) := by
  unfold addEmo
  dsimp only
  split
  · exact (excused_ensure (by trivial)).bind fun _ => excused_getEmo.bind fun _ => trivial
  · trivial

theorem excused_setEmo {baseId attackAndSurvivedCount : Nat} {isTriple : Bool} {side : Side}
    (resolves : Resolves env.emoBases baseId) :
    Excused (setEmo env playerIndex emoIndex baseId isTriple attackAndSurvivedCount side
      state) := by
  refine (sound_find resolves).bind fun base _ => ?_
  cases side with
  | ally => exact excused_addEmo
  | rival => exact excused_addEmo

/-! ## Damage and retirement -/

theorem excused_retireEmo : Excused (retireEmo env playerIndex emoIndex state) := by
  refine (excused_okOr (by trivial)).bind fun removedEmo => ?_
  refine Excused.bind ?_ fun _ => trivial
  exact excused_getAbilities.bind fun _ => trivial

theorem excused_removeShield {shieldAbilityIndex : Nat} :
    Excused (removeShield env playerIndex emoIndex shieldAbilityIndex state) := by
  refine excused_getEmoMut.bind fun emo => ?_
  refine (excused_okOr (by trivial)).bind fun ability => ?_
  refine (excused_okOr (by trivial)).bind fun battleAbility => ?_
  exact excused_getEmo.bind fun _ => trivial

theorem excused_removeShieldIfExist :
    Excused (removeShieldIfExist env playerIndex emoIndex state) := by
  refine excused_getEmo.bind fun emo => excused_getAbilities.bind fun abilities => ?_
  split
  · exact excused_removeShield.map
  · trivial

theorem excused_damageEmo {damage : Nat} :
    Excused (damageEmo env damage playerIndex emoIndex state) := by
  refine excused_removeShieldIfExist.bind fun shielded => ?_
  cases shielded with
  | some calls => trivial
  | none =>
      dsimp only
      split
      · trivial
      · refine excused_getEmoMut.bind fun emo => ?_
        split
        · exact excused_retireEmo.bind fun _ => trivial
        · trivial

/-! ## Abilities -/

theorem excused_callAbilityNormalAction {action : NormalAction}
    {retiredActionEmoOpt : Option BattleEmo} {isTripleAction : Bool}
    (legal : LegalNormalAction env.emoBases action) :
    Excused (callAbilityNormalAction env playerIndex action emoIndex retiredActionEmoOpt
      isTripleAction state) := by
  refine excused_getActionEmo.bind fun actionEmo => ?_
  cases action with
  | setEmo side baseId =>
      rw [LegalNormalAction] at legal
      exact excused_setEmo legal
  | setEmosByAttackDiv side baseId divisor =>
      rw [LegalNormalAction] at legal
      refine Excused.bind ?_ fun _ => trivial
      rw [ensure, if_pos legal.2]
      trivial
  | increaseStats targetOrRandom attack health =>
      exact excused_increaseStats.bind fun _ => trivial
  | decreaseStats targetOrRandom attack health =>
      exact excused_decreaseStats.bind fun _ => trivial
  | increaseStatsByEmoCount side targetOrRandom countCondition attack health =>
      exact Excused.bind excused_increaseStats fun _ => trivial
  | addBattleAbility targetOrRandom ability =>
      exact excused_addBattleAbility.bind fun _ => trivial
  | damageAll side damage => trivial

theorem excused_callAbilityNormalActionAsOneself {action : NormalAction}
    {retiredActionEmoOpt : Option BattleEmo} (legal : LegalNormalAction env.emoBases action) :
    Excused (callAbilityNormalActionAsOneself env playerIndex action emoIndex retiredActionEmoOpt
      state) :=
  excused_getActionEmo.bind fun _ => excused_callAbilityNormalAction legal

theorem excused_callAbilityGeneralAsAllyAction {action : GeneralAsAllyAction}
    {retiredAllyEmoOpt : Option BattleEmo} {oneselfEmoIndex : Nat}
    (legal : ∀ normalAction, action = .oneselfTripleNormal normalAction →
      LegalNormalAction env.emoBases normalAction) :
    Excused (callAbilityGeneralAsAllyAction env playerIndex action emoIndex retiredAllyEmoOpt
      oneselfEmoIndex state) := by
  match action with
  | .oneselfTripleNormal normalAction =>
      exact excused_getEmo.bind fun _ => excused_callAbilityNormalAction (legal _ rfl)
  | .custom .triggerRetireActions =>
      refine excused_getActionEmo.bind fun allyEmo => excused_getEmo.bind fun oneselfEmo => ?_
      exact excused_getAbilities.bind fun _ => trivial

theorem excused_callShieldRemovedAbilityOf {action : NormalAction} {excludesSameBase : Bool}
    {shieldRemovedEmoBaseId : Nat} (legal : LegalNormalAction env.emoBases action) :
    Excused (callShieldRemovedAbilityOf env playerIndex action emoIndex excludesSameBase
      shieldRemovedEmoBaseId state) := by
  unfold callShieldRemovedAbilityOf
  split
  · refine excused_getEmo.bind fun emo => ?_
    split
    · trivial
    · exact excused_callAbilityNormalActionAsOneself legal
  · exact excused_callAbilityNormalActionAsOneself legal

/-! ## Attacks -/

theorem excused_getDefenseEmoIndex {emos : List BattleEmo} {isLowestAttack : Bool}
    {rng : env.sampler.Rng} : Excused (getDefenseEmoIndex env emos isLowestAttack rng) := by
  unfold getDefenseEmoIndex
  split
  · refine (excused_okOr (by trivial)).bind fun first => ?_
    exact (excused_okOr (by trivial)).bind fun _ => trivial
  · split
    · trivial
    · exact (excused_ensure (by trivial)).bind fun _ => trivial

theorem excused_attack {attackPlayerIndex : PlayerIndex} :
    Excused (attack env attackPlayerIndex state) := by
  have indexes : Excused (getAttackAndDefenseEmoIndexes env attackPlayerIndex state) := by
    have attacker : Excused (getAttackEmoIndex (state.getBoard attackPlayerIndex)) :=
      (excused_okOr (by trivial)).bind fun _ => trivial
    refine attacker.bind fun index => ?_
    refine excused_getEmo.bind fun attackEmo => excused_getAbilities.bind fun abilities => ?_
    exact excused_getDefenseEmoIndex.bind fun _ => trivial
  exact indexes.bind fun _ => trivial

theorem excused_attackDamage {attackPlayerIndex : PlayerIndex} {defenseEmoIndex : Nat} :
    Excused (attackDamage env attackPlayerIndex emoIndex defenseEmoIndex state) :=
  excused_getEmo.bind fun _ => excused_getEmo.bind fun _ => excused_damageEmo.bind fun _ => trivial

theorem excused_attackDamageCounter {attackPlayerIndex : PlayerIndex}
    {defenseEmoAttack attackEmoId : Nat} :
    Excused (attackDamageCounter env attackPlayerIndex emoIndex defenseEmoAttack attackEmoId
      state) := by
  unfold attackDamageCounter
  split
  · refine excused_damageEmo.bind fun ⟨survived, calls, after⟩ => ?_
    dsimp only
    split <;> trivial
  · trivial

theorem excused_countAttackAndSurvived {attackPlayerIndex : PlayerIndex} :
    Excused (countAttackAndSurvived env attackPlayerIndex emoIndex state) :=
  excused_getEmoMut.bind fun _ => sound_addU8.bind fun _ _ => trivial

/-! ## Tasks -/

def Task.marches : Task → Prop
  | .marchBegin _ | .marchLoop _ | .marchNext _ => True
  | _ => False

theorem excused_perform {task : Task} (legal : LegalTask env.emoBases task)
    (within : ¬ task.marches) : Excused (perform env task state) := by
  cases task with
  | callPreAbilitiesOf => trivial
  | attack => exact excused_attack
  | attackDamage => exact excused_attackDamage
  | attackDamageCounter => exact excused_attackDamageCounter
  | countAttackAndSurvived => exact excused_countAttackAndSurvived
  | callAbilityNormalActionAsOneself =>
      exact excused_callAbilityNormalActionAsOneself (legal.action _ rfl)
  | callAbilityGeneralAsAllyAction playerIndex action =>
      refine excused_callAbilityGeneralAsAllyAction fun normalAction same => ?_
      subst same
      exact legal.action _ rfl
  | callShieldRemovedAbilityOf =>
      exact excused_callShieldRemovedAbilityOf (legal.action _ rfl)
  | callEmoRetireBoardAbilities | callEmoRetireRivalAbilities => trivial
  | setEmo => exact excused_setEmo (legal.setEmo _ _ _ _ _ _ rfl)
  | damageAllEmosOf playerIndex damage emoId =>
      simp only [perform]
      split
      · exact excused_damageEmo.map
      · trivial
  | marchBegin | marchLoop | marchNext => exact absurd trivial within

/-! ## Runs -/

/-- The legality of a run that marches no further. -/
structure LegalCascade (config : Config Task (St env)) : Prop where
  tasks : ∀ task ∈ config.stack, LegalTask env.emoBases task
  within : ∀ task ∈ config.stack, ¬ task.marches
  boards : LegalBoards env.emoBases config.state.boards

theorem Origin.not_marches {task call : Task} {before after : St env}
    (origin : Origin env task before after call) (within : ¬ task.marches) : ¬ call.marches := by
  cases origin with
  | marchLoop marches => rcases marches with rfl | ⟨_, rfl⟩ <;> exact absurd trivial within
  | marchNext marches => exact absurd (marches ▸ trivial) within
  | _ => exact id

theorem LegalCascade.step (bases : LegalBases env.emoBases) {task : Task}
    {rest calls : List Task} {before after : St env} (legal : LegalCascade ⟨task :: rest, before⟩)
    (performed : perform env task before = .ok (calls, after)) :
    LegalCascade ⟨calls ++ rest, after⟩ := by
  obtain ⟨effect, origin⟩ := perform_performs performed
  have legalTask := legal.tasks task List.mem_cons_self
  have boards := legal.boards.effect bases (fun _ added => legalTask.added added) effect
  refine ⟨fun call member => ?_, fun call member => ?_, boards⟩
  · rcases List.mem_append.mp member with new | old
    · exact (origin call new).legal legalTask legal.boards boards
    · exact legal.tasks call (List.mem_cons_of_mem _ old)
  · rcases List.mem_append.mp member with new | old
    · exact (origin call new).not_marches (legal.within task List.mem_cons_self)
    · exact legal.within call (List.mem_cons_of_mem _ old)

theorem legalCascade_battleStep {calls : List Task} {state : St env}
    (boards : LegalBoards env.emoBases state.boards)
    (step : (∃ first, calls = callPreAbilities first) ∨ ∃ player, calls = [.attack player]) :
    LegalCascade ⟨calls, state⟩ := by
  have plain : ∀ call ∈ calls, LegalTask env.emoBases call ∧ ¬ call.marches := by
    intro call member
    rcases step with ⟨first, rfl⟩ | ⟨player, rfl⟩
    · rcases List.mem_pair.mp member with rfl | rfl
      all_goals exact ⟨legalTask_of_plain rfl rfl fun _ _ _ _ _ _ same => (nomatch same), id⟩
    · rw [List.mem_singleton.mp member]
      exact ⟨legalTask_of_plain rfl rfl fun _ _ _ _ _ _ same => (nomatch same), id⟩
  exact ⟨fun call member => (plain call member).1, fun call member => (plain call member).2,
    boards⟩

/-- Whatever a task of a legal cascade fails with, the data did not cause it. -/
theorem battleStep_error {calls : List Task} {state : St env}
    (bases : LegalBases env.emoBases) (boards : LegalBoards env.emoBases state.boards)
    (step : (∃ first, calls = callPreAbilities first) ∨ ∃ player, calls = [.attack player])
    {task : Task} {middle : St env} {error : MtcError}
    (reached : PerformedIn (perform env) ⟨calls, state⟩ task middle)
    (failed : perform env task middle = .error error) : NotDataError error := by
  obtain ⟨rest, reached⟩ := reached
  have legal := Reaches.invariant (P := LegalCascade)
    (fun holds performed => holds.step bases performed) reached
    (legalCascade_battleStep boards step)
  exact (excused_perform (legal.tasks task List.mem_cons_self)
    (legal.within task List.mem_cons_self)).error failed

end EmojiBattler.Mtc.Battle
