import EmojiBattler.Battle.March

/-! # The single changes of a battle

Every task is a sequence of small changes.  What a change keeps holds at every
point of a battle at which an emo was damaged, retired, added or modified. -/

namespace EmojiBattler.Mtc.Battle

open EmojiBattler.Emo Sampling
open EmojiBattler.Emo.Ability (Side)
open EmojiBattler.Emo.Ability.Battle (NormalAction)

variable {env : Env}

/-- The task was given an attack count: that of a retired emo, or of the emo
whose action sets others. -/
def Task.Carries (task : Task) (count : Nat) : Prop :=
  (∃ emo, task.retiredEmo? = some emo ∧ emo.attackAndSurvivedCount = count) ∨
    ∃ playerIndex emoIndex baseId isTriple side,
      task = .setEmo playerIndex emoIndex baseId isTriple count side

/-- An attack count that a task can see. -/
def Counted (task : Task) (boards : BattleBoards) (count : Nat) : Prop :=
  count = 0 ∨ (∃ playerIndex, ∃ emo ∈ boards.getBoard playerIndex,
    emo.attackAndSurvivedCount = count) ∨ task.Carries count

inductive Change (env : Env) (task : Task) : St env → St env → Prop where
  | write {before after : St env}
      (write : Write env (task.action?.bind addedAbility?) before after) :
      Change env task before after
  /-- `set_emo` on a full board. -/
  | noRoom (state : St env) :
      Change env task state { state with generatedIds := state.generatedIds + 1 }
  | insert {state : St env} {playerIndex : PlayerIndex} {position id count : Nat} {base : Base}
      (found : env.emoBases id = some base) (isTriple : Bool)
      (room : (state.getBoard playerIndex).length < boardEmoMaxCount)
      (bound : position ≤ (state.getBoard playerIndex).length)
      (counted : Counted task state.boards count) :
      Change env task state
        { BattleState.addLog env { state with generatedIds := state.generatedIds + 1 }
            (.add playerIndex position base.id (buildEmoAttributes base isTriple)) with
          boards := state.boards.setBoard playerIndex
            ((state.getBoard playerIndex).insertIdx position
              { BattleEmo.newWithBase state.generatedIds base isTriple with
                attackAndSurvivedCount := count }) }
  | retire {state : St env} {playerIndex : PlayerIndex} {emoIndex : Nat} {emo : BattleEmo}
      (found : (state.getBoard playerIndex)[emoIndex]? = some emo) (damage : Nat) :
      Change env task state (BattleState.addLog env
        { state.addLog env (.damage playerIndex emoIndex damage 0) with
          boards := state.boards.setBoard playerIndex
            ((state.getBoard playerIndex).eraseIdx emoIndex) }
        (.remove playerIndex emoIndex))
  | count {state : St env} {playerIndex : PlayerIndex} {emoIndex emoId : Nat} {emo : BattleEmo}
      (counts : task = .countAttackAndSurvived playerIndex emoIndex emoId)
      (found : (state.getBoard playerIndex)[emoIndex]? = some emo) :
      Change env task state
        { state with
          boards := state.boards.setEmo playerIndex emoIndex
            { emo with attackAndSurvivedCount := emo.attackAndSurvivedCount + 1 } }

abbrev Changes (env : Env) (task : Task) : St env → St env → Prop :=
  Relation.ReflTransGen (Change env task)

theorem Writes.changes {task : Task} {before after : St env}
    (writes : Writes env (task.action?.bind addedAbility?) before after) :
    Changes env task before after :=
  Relation.ReflTransGen.mono (fun _ _ write => .write write) _ _ writes

/-! ## Setting emos -/

theorem addEmo_changes {task : Task} {playerIndex : PlayerIndex} {emoIndex id count : Nat}
    {base : Base} {isTriple : Bool} {state after : St env} {calls : List Task}
    (found : env.emoBases id = some base) (counted : Counted task state.boards count)
    (performed : addEmo env playerIndex emoIndex
      { BattleEmo.newWithBase state.generatedIds base isTriple with
        attackAndSurvivedCount := count }
      { state with generatedIds := state.generatedIds + 1 } = .ok (calls, after)) :
    Changes env task state after := by
  unfold addEmo at performed
  dsimp only at performed
  split at performed
  · rename_i room
    simp only [Result.bind_eq_ok_iff, ensure_eq_ok_iff, BattleBoards.getEmo_eq_ok_iff,
      Result.pure_eq_ok_iff, Prod.mk.injEq] at performed
    obtain ⟨_, bound, _, _, _, rfl⟩ := performed
    simp only [BattleState.addLog_boards, BattleState.addLog_getBoard]
    exact .single (.insert found isTriple room bound counted)
  · cases performed
    exact .single (.noRoom state)

theorem setEmo_changes {task : Task} {playerIndex : PlayerIndex} {emoIndex baseId : Nat}
    {isTriple : Bool} {attackAndSurvivedCount : Nat} {side : Side} {state after : St env}
    {calls : List Task} (counted : Counted task state.boards attackAndSurvivedCount)
    (performed : setEmo env playerIndex emoIndex baseId isTriple attackAndSurvivedCount side
      state = .ok (calls, after)) : Changes env task state after := by
  simp only [setEmo, Result.bind_eq_ok_iff, Emo.Bases.find_eq_ok_iff] at performed
  obtain ⟨base, found, performed⟩ := performed
  cases side with
  | ally => exact addEmo_changes found counted performed
  | rival =>
      refine addEmo_changes found ?_ performed
      -- The new rival counts as the last emo of its board.
      cases last : (state.getBoard (switchPlayerIndex playerIndex)).getLast? with
      | some emo => exact .inr (.inl ⟨_, emo, List.mem_of_getLast? last, rfl⟩)
      | none => exact .inl rfl

/-! ## Damage -/

theorem removeShield_writes {added : Option Ability.Battle} {playerIndex : PlayerIndex}
    {emoIndex shieldAbilityIndex : Nat} {state after : St env} {calls : List Task}
    (performed : removeShield env playerIndex emoIndex shieldAbilityIndex state =
      .ok (calls, after)) : Writes env added state after := by
  simp only [removeShield, Result.bind_eq_ok_iff, BattleBoards.getEmoMut_eq_ok_iff,
    okOr_eq_ok_iff] at performed
  obtain ⟨emo, found, ability, listed, battle, isBattle, performed⟩ := performed
  obtain ⟨rfl, _⟩ := callShieldRemovedAbility_cases performed
  cases ability with
  | battle ability =>
      cases isBattle
      exact .single (.shield found listed)
  | shop => cases isBattle

theorem damageEmo_changes {task : Task} {damage : Nat} {playerIndex : PlayerIndex}
    {emoIndex : Nat} {state after : St env} {survived : Bool} {calls : List Task}
    (performed : damageEmo env damage playerIndex emoIndex state =
      .ok (survived, calls, after)) : Changes env task state after := by
  cases damageEmo_damaged performed with
  | shield _ _ removed => exact (removeShield_writes removed).changes
  | nothing => exact .refl
  | retired found _ retires =>
      simp only [retireEmo, Result.bind_eq_ok_iff, okOr_eq_ok_iff, Result.pure_eq_ok_iff,
        Prod.exists, Prod.mk.injEq] at retires
      obtain ⟨removedEmo, _, own, middle, called, rfl, rfl⟩ := retires
      obtain ⟨rfl, _⟩ := callEmoRetirePlayerAbilities_cases called
      rw [BattleState.addLog_getBoard, BattleState.addLog_boards]
      exact .single (.retire found damage)
  | wounded found alive log =>
      rw [log, BattleState.addLog_boards]
      exact .single (.write (.damage found damage alive))

/-- What `damage_emo` does to the boards. -/
inductive Harm (damage : Nat) (playerIndex : PlayerIndex) (emoIndex : Nat)
    (boards : BattleBoards) : Bool → BattleBoards → Prop
  | shield {emo : BattleEmo} {abilityIndex : Nat}
      (found : (boards.getBoard playerIndex)[emoIndex]? = some emo)
      (listed : emo.attributes.abilities[abilityIndex]? = some (.battle (.special .shield))) :
      Harm damage playerIndex emoIndex boards true
        (boards.setEmo playerIndex emoIndex { emo with attributes :=
          { emo.attributes with abilities := emo.attributes.abilities.eraseIdx abilityIndex } })
  | nothing (none : damage = 0) : Harm damage playerIndex emoIndex boards true boards
  | wounded {emo : BattleEmo} (found : (boards.getBoard playerIndex)[emoIndex]? = some emo)
      (alive : 1 ≤ emo.attributes.health - damage) :
      Harm damage playerIndex emoIndex boards true
        (boards.setEmo playerIndex emoIndex { emo with attributes :=
          { emo.attributes with health := emo.attributes.health - damage } })
  | retired {emo : BattleEmo} (found : (boards.getBoard playerIndex)[emoIndex]? = some emo) :
      Harm damage playerIndex emoIndex boards false
        (boards.setBoard playerIndex ((boards.getBoard playerIndex).eraseIdx emoIndex))

theorem damageEmo_harm {damage : Nat} {playerIndex : PlayerIndex} {emoIndex : Nat}
    {state after : St env} {survived : Bool} {calls : List Task}
    (performed : damageEmo env damage playerIndex emoIndex state =
      .ok (survived, calls, after)) :
    Harm damage playerIndex emoIndex state.boards survived after.boards := by
  cases damageEmo_damaged performed with
  | shield found listed removed =>
      simp only [removeShield, Result.bind_eq_ok_iff, BattleBoards.getEmoMut_eq_ok_iff]
        at removed
      obtain ⟨_, again, _, _, _, _, called⟩ := removed
      obtain ⟨rfl, _⟩ := callShieldRemovedAbility_cases called
      cases found.symm.trans again
      rw [BattleState.addLog_boards]
      exact .shield found listed
  | nothing none => exact .nothing none
  | retired found _ retires =>
      obtain ⟨⟨_, boards, _⟩, _⟩ := retireEmo_cases retires
      rw [boards, BattleState.addLog_boards, BattleState.addLog_getBoard]
      exact .retired found
  | wounded found alive log =>
      rw [log, BattleState.addLog_boards]
      exact .wounded found alive

/-! ## Actions -/

theorem getActionEmo_counted {task : Task} {playerIndex : PlayerIndex} {emoIndex : Nat}
    {retiredEmoOpt : Option BattleEmo} {state : St env} {emo : BattleEmo}
    (retired : ∀ emo, retiredEmoOpt = some emo → task.retiredEmo? = some emo)
    (found : getActionEmo env playerIndex emoIndex retiredEmoOpt state = .ok emo) :
    Counted task state.boards emo.attackAndSurvivedCount := by
  cases retiredEmoOpt with
  | some retiredEmo =>
      cases found
      exact .inr (.inr (.inl ⟨emo, retired emo rfl, rfl⟩))
  | none =>
      simp only [getActionEmo, BattleBoards.getEmo_eq_ok_iff] at found
      exact .inr (.inl ⟨playerIndex, emo, List.mem_of_getElem? found, rfl⟩)

theorem Acted.changes {task : Task} {playerIndex : PlayerIndex} {action : NormalAction}
    {actionEmoIndex : Nat} {retiredActionEmoOpt : Option BattleEmo} {state after : St env}
    {calls : List Task} (acts : task.action? = some action)
    (retired : ∀ emo, retiredActionEmoOpt = some emo → task.retiredEmo? = some emo)
    (acted : Acted env playerIndex action actionEmoIndex retiredActionEmoOpt state calls after) :
    Changes env task state after := by
  cases acted with
  | set _ found performed => exact setEmo_changes (getActionEmo_counted retired found) performed
  | callsSet _ _ _ same | callsDamage _ same =>
      subst same
      exact .refl
  | writes writes _ =>
      refine Writes.changes ?_
      rw [acts]
      exact writes

/-! ## Tasks -/

theorem Task.of_act? {task : Task} {playerIndex : PlayerIndex} {action : NormalAction}
    {actionEmoIndex : Nat} {retiredActionEmoOpt : Option BattleEmo}
    (acts : task.act? = some (playerIndex, action, actionEmoIndex, retiredActionEmoOpt)) :
    task.action? = some action ∧ task.retiredEmo? = retiredActionEmoOpt := by
  unfold Task.act? at acts
  split at acts <;> cases acts <;> exact ⟨rfl, rfl⟩

theorem Task.exists_act {task : Task} {action : NormalAction}
    (acts : task.action? = some action) :
    ∃ playerIndex actionEmoIndex,
      task.act? = some (playerIndex, action, actionEmoIndex, task.retiredEmo?) := by
  cases task with
  | callAbilityNormalActionAsOneself | callShieldRemovedAbilityOf =>
      cases acts
      exact ⟨_, _, rfl⟩
  | callAbilityGeneralAsAllyAction playerIndex generalAction =>
      cases generalAction <;> cases acts
      exact ⟨_, _, rfl⟩
  | _ => cases acts

/-- The one thing that a task does to the boards. -/
inductive Deed (env : Env) (task : Task) (state : St env) (calls : List Task) (after : St env) :
    Prop where
  | none (writes : Writes env (task.action?.bind addedAbility?) state after)
      (boards : after.boards = state.boards)
  | damage {damage : Nat} {playerIndex : PlayerIndex} {emoIndex : Nat} {survived : Bool}
      {made : List Task}
      (damaged : damageEmo env damage playerIndex emoIndex state = .ok (survived, made, after))
  | action {playerIndex : PlayerIndex} {action : NormalAction} {actionEmoIndex : Nat}
      {retiredActionEmoOpt : Option BattleEmo} {isTripleAction : Bool}
      (acts : task.act? = some (playerIndex, action, actionEmoIndex, retiredActionEmoOpt))
      (performed : callAbilityNormalAction env playerIndex action actionEmoIndex
        retiredActionEmoOpt isTripleAction state = .ok (calls, after))
  | set {playerIndex : PlayerIndex} {emoIndex baseId : Nat} {isTriple : Bool}
      {attackAndSurvivedCount : Nat} {side : Side}
      (sets : task = .setEmo playerIndex emoIndex baseId isTriple attackAndSurvivedCount side)
      (performed : setEmo env playerIndex emoIndex baseId isTriple attackAndSurvivedCount side
        state = .ok (calls, after))
  | count {playerIndex : PlayerIndex} {emoIndex emoId : Nat} {emo : BattleEmo}
      (counts : task = .countAttackAndSurvived playerIndex emoIndex emoId)
      (found : (state.getBoard playerIndex)[emoIndex]? = some emo)
      (counted : after = { state with
        boards := state.boards.setEmo playerIndex emoIndex
          { emo with attackAndSurvivedCount := emo.attackAndSurvivedCount + 1 } })

theorem Deed.same {task : Task} {state : St env} {calls : List Task} :
    Deed env task state calls state :=
  .none .refl rfl

theorem perform_deed {task : Task} {state after : St env} {calls : List Task}
    (performed : perform env task state = .ok (calls, after)) :
    Deed env task state calls after := by
  cases task with
  | callPreAbilitiesOf | callEmoRetireBoardAbilities | callEmoRetireRivalAbilities | marchLoop =>
      cases performed
      exact .same
  | attack attackPlayerIndex =>
      obtain ⟨_, _, _, rng, _, _, _, rfl⟩ := attack_cases performed
      exact .none (.tail (.single (.rng state rng)) (.attack ..)) (BattleState.addLog_boards ..)
  | attackDamage attackPlayerIndex attackEmoIndex defenseEmoIndex =>
      obtain ⟨_, _, _, _, _, _, damaged, _⟩ := attackDamage_cases performed
      exact .damage damaged
  | attackDamageCounter attackPlayerIndex attackEmoIndex defenseEmoAttack attackEmoId =>
      rcases attackDamageCounter_cases performed with ⟨_, _, rfl⟩ | ⟨_, _, _, damaged, _⟩
      · exact .same
      · exact .damage damaged
  | countAttackAndSurvived attackPlayerIndex attackEmoIndex attackEmoId =>
      obtain ⟨emo, found, _, rfl⟩ := countAttackAndSurvived_cases performed
      exact .count rfl found rfl
  | callAbilityNormalActionAsOneself | callShieldRemovedAbilityOf =>
      rcases act_cases rfl performed with ⟨_, rfl, rfl⟩ | ⟨_, performed⟩
      · exact .same
      · exact .action rfl performed
  | callAbilityGeneralAsAllyAction playerIndex action =>
      cases action with
      | oneselfTripleNormal normalAction =>
          rcases act_cases rfl performed with ⟨_, rfl, rfl⟩ | ⟨_, performed⟩
          · exact .same
          · exact .action rfl performed
      | custom asAllyAction =>
          obtain ⟨rfl, _⟩ := custom_cases performed
          exact .same
  | setEmo playerIndex emoIndex baseId isTriple attackAndSurvivedCount side =>
      exact .set rfl performed
  | damageAllEmosOf playerIndex damage emoId =>
      rcases damageAllEmosOf_cases performed with ⟨_, rfl⟩ | ⟨_, _, damaged⟩
      · exact .same
      · exact .damage damaged
  | marchBegin tick =>
      obtain ⟨rfl, _⟩ := marchBegin_cases performed
      exact .same
  | marchNext tick =>
      obtain ⟨rfl, _⟩ := marchNext_cases performed
      exact .same

/-- Every task is a sequence of changes. -/
theorem perform_changes {task : Task} {state after : St env} {calls : List Task}
    (performed : perform env task state = .ok (calls, after)) : Changes env task state after := by
  cases perform_deed performed with
  | none writes => exact writes.changes
  | damage damaged => exact damageEmo_changes damaged
  | action acts performed =>
      obtain ⟨action, retired⟩ := Task.of_act? acts
      exact (callAbilityNormalAction_acted performed).changes action
        fun _ same => retired.trans same
  | set sets performed =>
      subst sets
      exact setEmo_changes (.inr (.inr (.inr ⟨_, _, _, _, _, rfl⟩))) performed
  | count counts found counted =>
      subst counted
      exact .single (.count counts found)

end EmojiBattler.Mtc.Battle
