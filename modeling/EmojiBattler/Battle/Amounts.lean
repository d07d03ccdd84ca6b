import EmojiBattler.Battle.Failures
import EmojiBattler.Battle.Invariant
import EmojiBattler.Battle.Logs
import EmojiBattler.Mtc.DataErrors
import EmojiBattler.Shop.Conservation
import EmojiBattler.Shop.Specials

/-! # What the logs of a battle say

A log tells more than where it leads: the amount of a change is zero only where
the stat stays, and an ability that is added or removed is described as the emo
has it.  The front relies on both. -/

namespace EmojiBattler.Mtc.Battle

open EmojiBattler.Emo CallMachine
open EmojiBattler.Emo.Ability (TargetOrRandom Side)
open EmojiBattler.Emo.Ability.Battle (NormalAction)
open EmojiBattler.Mtc.Shop (SpecialsOnce isSpecialBattleAbility KeyedBases)
open Function (update)
open Replay (Follows Narrated)

/-! ## Regular boards -/

/-- Stats of sixteen bits other than zero, and no special ability twice. -/
structure Regular (attributes : Attributes) : Prop where
  attack : 1 ≤ attributes.attack ∧ attributes.attack ≤ u16Max
  health : 1 ≤ attributes.health ∧ attributes.health ≤ u16Max
  specials : SpecialsOnce attributes.abilities

def RegularBoard (board : List BattleEmo) : Prop := ∀ emo ∈ board, Regular emo.attributes

def RegularBoards (boards : BattleBoards) : Prop :=
  ∀ playerIndex, RegularBoard (boards.getBoard playerIndex)

structure RegularBases (bases : Bases) : Prop where
  keyed : KeyedBases bases
  regular : ∀ id base, bases id = some base → Regular (buildEmoAttributes base false)

theorem Regular.triple {base : Base} (regular : Regular (buildEmoAttributes base false))
    (isTriple : Bool) : Regular (buildEmoAttributes base isTriple) := by
  cases isTriple with
  | false => exact regular
  | true =>
      obtain ⟨attack, health, specials⟩ := regular
      simp only [buildEmoAttributes, Bool.false_eq_true, if_false] at attack health
      refine ⟨?_, ?_, specials⟩
      · simp only [buildEmoAttributes, saturatingMulU16, u16Max, if_true]
        omega
      · simp only [buildEmoAttributes, saturatingMulU16, u16Max, if_true]
        omega

namespace RegularBoards

variable {boards : BattleBoards} {playerIndex : PlayerIndex} {board : List BattleEmo}

theorem setBoard (regular : RegularBoards boards) (new : RegularBoard board) :
    RegularBoards (boards.setBoard playerIndex board) := by
  intro other emo member
  rcases BattleBoards.mem_setBoard member with onBoard | old
  · exact new emo onBoard
  · exact regular other emo old

theorem setEmo {emoIndex : Nat} {changed : BattleEmo} (regular : RegularBoards boards)
    (new : Regular changed.attributes) :
    RegularBoards (boards.setEmo playerIndex emoIndex changed) := by
  refine regular.setBoard fun emo member => ?_
  rcases List.mem_or_eq_of_mem_set member with old | rfl
  · exact regular playerIndex emo old
  · exact new

end RegularBoards

/-! ## Logs that fit -/

/-- What a log says of the emo that it is about. -/
def LogFits (bases : Bases) (boards : ShownBoards) : Log → Prop
  | .attack attackPlayerIndex attackEmoIndex defenseEmoIndex =>
      attackEmoIndex < (boards attackPlayerIndex).length ∧
        defenseEmoIndex < (boards (switchPlayerIndex attackPlayerIndex)).length
  | .increaseStats playerIndex emoIndex attack health calculatedAttack calculatedHealth
  | .decreaseStats playerIndex emoIndex attack health calculatedAttack calculatedHealth =>
      ∀ emo, (boards playerIndex)[emoIndex]? = some emo →
        (attack = 0 → calculatedAttack = emo.attributes.attack) ∧
          (health = 0 → calculatedHealth = emo.attributes.health)
  | .addBattleAbility playerIndex emoIndex _ isEmoTriple =>
      ∀ emo, (boards playerIndex)[emoIndex]? = some emo → isEmoTriple = emo.attributes.isTriple
  | .removeBattleAbility playerIndex emoIndex abilityIndex ability =>
      ability = .special .shield ∧ ∀ emo, (boards playerIndex)[emoIndex]? = some emo →
        emo.attributes.abilities[abilityIndex]? = some (.battle ability) ∧
          .battle ability ∉ emo.attributes.abilities.eraseIdx abilityIndex
  | .add _ _ baseId _ => Resolves bases baseId
  | .damage .. | .remove .. => True

variable {env : Env}

/-- On regular boards the logs between two states fit, and lead from the boards
of the first to those of the second. -/
def Told (before after : St env) : Prop :=
  RegularBoards before.boards → RegularBoards after.boards ∧
    Narrated animate (LogFits env.emoBases) BattleState.logs shownState before after

theorem Told.silent {before after : St env} (quiet : after.logs = before.logs)
    (boards : after.boards = before.boards) : Told before after := by
  intro regular
  exact ⟨boards ▸ regular, .silent quiet (by rw [shownState, shownState, boards])⟩

theorem Told.trans {before between after : St env} (first : Told before between)
    (second : Told between after) : Told before after := by
  intro regular
  obtain ⟨middle, left⟩ := first regular
  obtain ⟨last, right⟩ := second middle
  exact ⟨last, left.trans right⟩

theorem Told.foldlM {f : St env → Nat → Result (St env)}
    (step : ∀ {state emoIndex after}, f state emoIndex = .ok after → Told state after)
    {indexes : List Nat} {state after : St env} (performed : indexes.foldlM f state = .ok after) :
    Told state after := by
  induction indexes generalizing state with
  | nil =>
      cases performed
      exact .silent rfl rfl
  | cons emoIndex rest ih =>
      rw [List.foldlM_cons, Result.bind_eq_ok_iff] at performed
      obtain ⟨middle, first, second⟩ := performed
      exact (step first).trans (ih second)

theorem shown_getElem? {boards : BattleBoards} {playerIndex : PlayerIndex} {emoIndex : Nat}
    {emo : BattleEmo} (found : (boards.getBoard playerIndex)[emoIndex]? = some emo) :
    (boards.shown playerIndex)[emoIndex]? = some emo.shown := by
  rw [BattleBoards.shown, List.getElem?_map, found, Option.map_some]

/-- An emo with other attributes, and a log that fits them. -/
theorem Told.attributes {before after : St env} {playerIndex : PlayerIndex} {emoIndex : Nat}
    {emo : BattleEmo} {attributes : Attributes} {log : Log}
    (found : (before.getBoard playerIndex)[emoIndex]? = some emo)
    (written : after.logs = before.logs ++ [log])
    (boards : after.boards =
      before.boards.setEmo playerIndex emoIndex { emo with attributes := attributes })
    (kept : Regular emo.attributes → Regular attributes)
    (fits : Regular emo.attributes → LogFits env.emoBases before.boards.shown log)
    (animated : animate before.boards.shown log = some
      (before.boards.setEmo playerIndex emoIndex { emo with attributes := attributes }).shown) :
    Told before after := by
  intro regular
  have own := regular playerIndex emo (List.mem_of_getElem? found)
  refine ⟨?_, .entry written (fits own) ?_⟩
  · rw [boards]
    exact regular.setEmo (kept own)
  · rw [shownState, animated, shownState, boards]

theorem addAbilityToEmo_special {abilities after : List Ability}
    {special : Ability.Battle.Special}
    (performed : addAbilityToEmo abilities (.special special) = some after) :
    .battle (.special special) ∉ abilities := by
  unfold addAbilityToEmo at performed
  intro listed
  simp [listed] at performed

section Enabled

variable (enabled : env.isViewLogsEnabled = true)

include enabled

/-! ## Stats -/

theorem increaseEmoStats_told {playerIndex : PlayerIndex} {attack health emoIndex : Nat}
    {state after : St env}
    (performed : increaseEmoStats env playerIndex attack health state emoIndex = .ok after) :
    Told state after := by
  unfold increaseEmoStats at performed
  split at performed
  · cases performed
    exact .silent rfl rfl
  · simp only [Result.bind_eq_ok_iff, BattleBoards.getEmoMut_eq_ok_iff,
      Result.pure_eq_ok_iff] at performed
    obtain ⟨emo, found, rfl⟩ := performed
    refine .attributes found (addLog_logs enabled _ _) (BattleState.addLog_boards ..) ?_ ?_ ?_
    · intro regular
      have attackBounds := regular.attack
      have healthBounds := regular.health
      refine ⟨?_, ?_, regular.specials⟩
      · simp only [saturatingAddU16, u16Max] at attackBounds ⊢
        omega
      · simp only [saturatingAddU16, u16Max] at healthBounds ⊢
        omega
    · intro regular shown visible
      cases (shown_getElem? found).symm.trans visible
      have attackBounds := regular.attack
      have healthBounds := regular.health
      simp only [saturatingAddU16, BattleEmo.shown]
      omega
    · simp only [animate]
      exact changeAttributes_shown found rfl

theorem decreaseEmoStats_told {playerIndex : PlayerIndex} {attack health emoIndex : Nat}
    {state after : St env}
    (performed : decreaseEmoStats env playerIndex attack health state emoIndex = .ok after) :
    Told state after := by
  unfold decreaseEmoStats at performed
  split at performed
  · cases performed
    exact .silent rfl rfl
  · simp only [Result.bind_eq_ok_iff, BattleBoards.getEmoMut_eq_ok_iff,
      Result.pure_eq_ok_iff] at performed
    obtain ⟨emo, found, rfl⟩ := performed
    refine .attributes found (addLog_logs enabled _ _) (BattleState.addLog_boards ..) ?_ ?_ ?_
    · intro regular
      have attackBounds := regular.attack
      have healthBounds := regular.health
      refine ⟨?_, ?_, regular.specials⟩
      · simp only [u16Max] at attackBounds ⊢
        omega
      · simp only [u16Max] at healthBounds ⊢
        omega
    · intro regular shown visible
      cases (shown_getElem? found).symm.trans visible
      have attackBounds := regular.attack
      have healthBounds := regular.health
      simp only [BattleEmo.shown]
      omega
    · simp only [animate]
      exact changeAttributes_shown found rfl

theorem increaseStats_told {playerIndex : PlayerIndex} {actionEmoIndex : Nat}
    {isActionEmoRetired isTripleAction : Bool} {targetOrRandom : TargetOrRandom}
    {attack health : Nat} {state after : St env}
    (performed : increaseStats env playerIndex actionEmoIndex isActionEmoRetired isTripleAction
      targetOrRandom attack health state = .ok after) : Told state after := by
  simp only [increaseStats, Result.bind_eq_ok_iff] at performed
  obtain ⟨⟨indexes, rng⟩, _, performed⟩ := performed
  have chosen : Told state { state with rng } := .silent rfl rfl
  exact chosen.trans (.foldlM (increaseEmoStats_told enabled) performed)

theorem decreaseStats_told {playerIndex : PlayerIndex} {actionEmoIndex : Nat}
    {isActionEmoRetired isTripleAction : Bool} {targetOrRandom : TargetOrRandom}
    {attack health : Nat} {state after : St env}
    (performed : decreaseStats env playerIndex actionEmoIndex isActionEmoRetired isTripleAction
      targetOrRandom attack health state = .ok after) : Told state after := by
  simp only [decreaseStats, Result.bind_eq_ok_iff] at performed
  obtain ⟨⟨indexes, rng⟩, _, performed⟩ := performed
  have chosen : Told state { state with rng } := .silent rfl rfl
  exact chosen.trans (.foldlM (decreaseEmoStats_told enabled) performed)

/-! ## Abilities -/

theorem addAbilityToEmoAt_told {playerIndex : PlayerIndex} {ability : Ability.Battle}
    {emoIndex : Nat} {state after : St env}
    (performed : addAbilityToEmoAt env playerIndex ability state emoIndex = .ok after) :
    Told state after := by
  simp only [addAbilityToEmoAt, Result.bind_eq_ok_iff,
    BattleBoards.getEmoMut_eq_ok_iff] at performed
  obtain ⟨emo, found, performed⟩ := performed
  split at performed
  · cases performed
    exact .silent rfl rfl
  · rename_i abilities added
    cases performed
    obtain ⟨_, rfl⟩ := addAbilityToEmo_some added
    have fresh : ∀ special, ability = .special special →
        .battle ability ∉ emo.attributes.abilities := by
      rintro special rfl
      exact addAbilityToEmo_special added
    refine .attributes found (addLog_logs enabled _ _) (BattleState.addLog_boards ..) ?_ ?_ ?_
    · intro regular
      refine ⟨regular.attack, regular.health, regular.specials.append fun isSpecial => ?_⟩
      cases ability with
      | special special => exact fresh special rfl
      | general general => cases isSpecial
    · intro regular shown visible
      cases (shown_getElem? found).symm.trans visible
      rfl
    · simp only [animate]
      exact changeAttributes_shown found rfl

theorem addBattleAbility_told {playerIndex : PlayerIndex} {actionEmoIndex : Nat}
    {isActionEmoRetired isTripleAction : Bool} {targetOrRandom : TargetOrRandom}
    {ability : Ability.Battle} {state after : St env}
    (performed : addBattleAbility env playerIndex actionEmoIndex isActionEmoRetired
      isTripleAction targetOrRandom ability state = .ok after) : Told state after := by
  cases targetOrRandom with
  | target target =>
      simp only [addBattleAbility, Result.bind_eq_ok_iff] at performed
      obtain ⟨indexes, _, performed⟩ := performed
      exact .foldlM (addAbilityToEmoAt_told enabled) performed
  | random typAndTriple count =>
      have chosen (rng : env.sampler.Rng) : Told state { state with rng } := .silent rfl rfl
      exact (chosen _).trans (.foldlM (addAbilityToEmoAt_told enabled) performed)

/-! ## Damage -/

theorem removeShield_told {playerIndex : PlayerIndex} {emoIndex shieldAbilityIndex : Nat}
    {emo : BattleEmo} {state after : St env} {calls : List Task}
    (found : (state.getBoard playerIndex)[emoIndex]? = some emo)
    (listed : emo.attributes.abilities[shieldAbilityIndex]? = some (.battle (.special .shield)))
    (performed : removeShield env playerIndex emoIndex shieldAbilityIndex state =
      .ok (calls, after)) : Told state after := by
  simp only [removeShield, Result.bind_eq_ok_iff, BattleBoards.getEmoMut_eq_ok_iff,
    okOr_eq_ok_iff] at performed
  obtain ⟨other, again, ability, here, battle, isBattle, performed⟩ := performed
  cases found.symm.trans again
  cases listed.symm.trans here
  cases isBattle
  obtain ⟨rfl, _⟩ := callShieldRemovedAbility_cases performed
  have bound := (List.getElem?_eq_some_iff.mp listed).1
  refine .attributes found (addLog_logs enabled _ _) (BattleState.addLog_boards ..) ?_ ?_ ?_
  · intro regular
    refine ⟨regular.attack, regular.health, fun special => ?_⟩
    exact Nat.le_trans ((List.eraseIdx_sublist _ _).count_le _) (regular.specials special)
  · intro regular
    refine ⟨rfl, fun shown visible => ?_⟩
    cases (shown_getElem? found).symm.trans visible
    exact ⟨listed, regular.specials.not_mem_eraseIdx listed⟩
  · simp only [animate]
    exact changeAttributes_shown found (if_pos bound)

/-- A retired emo is removed after its damage. -/
theorem retireEmo_told {playerIndex : PlayerIndex} {emoIndex damage : Nat} {emo : BattleEmo}
    {state after : St env} {calls : List Task}
    (found : (state.getBoard playerIndex)[emoIndex]? = some emo)
    (performed : retireEmo env playerIndex emoIndex
      (state.addLog env (.damage playerIndex emoIndex damage 0)) = .ok (calls, after)) :
    Told state after := by
  simp only [retireEmo, Result.bind_eq_ok_iff, okOr_eq_ok_iff, Result.pure_eq_ok_iff,
    Prod.exists, Prod.mk.injEq] at performed
  obtain ⟨removedEmo, _, own, middle, called, rfl, rfl⟩ := performed
  obtain ⟨rfl, _⟩ := callEmoRetirePlayerAbilities_cases called
  rw [BattleState.addLog_getBoard, BattleState.addLog_boards]
  intro regular
  refine ⟨?_, ?_⟩
  · rw [BattleState.addLog_boards]
    refine regular.setBoard fun emo member => ?_
    exact regular playerIndex emo (List.mem_of_mem_eraseIdx member)
  · have explained := retire_explained enabled found damage
    have written : (BattleState.addLog env
        { state.addLog env (.damage playerIndex emoIndex damage 0) with
          boards := state.boards.setBoard playerIndex
            ((state.getBoard playerIndex).eraseIdx emoIndex) }
        (.remove playerIndex emoIndex)).logs =
        state.logs ++ [.damage playerIndex emoIndex damage 0, .remove playerIndex emoIndex] := by
      rw [addLog_logs enabled]
      dsimp only
      rw [addLog_logs enabled, List.append_assoc]
      rfl
    exact .of_explained explained written (by simp [LogFits])

theorem damageEmo_told {damage : Nat} {playerIndex : PlayerIndex} {emoIndex : Nat}
    {state after : St env} {survived : Bool} {calls : List Task}
    (performed : damageEmo env damage playerIndex emoIndex state = .ok (survived, calls, after)) :
    Told state after := by
  cases damageEmo_damaged performed with
  | shield found listed removed => exact removeShield_told enabled found listed removed
  | nothing => exact .silent rfl rfl
  | retired found _ retires => exact retireEmo_told enabled found retires
  | @wounded emo found alive logged log =>
      subst log
      refine @Told.attributes _ _ _ _ _ emo
        { emo.attributes with health := emo.attributes.health - damage } _ found
        (addLog_logs enabled _ _) ?_ ?_ (fun _ => trivial) ?_
      · rw [BattleState.addLog_boards]
      · intro regular
        have healthBounds := regular.health
        refine ⟨regular.attack, ?_, regular.specials⟩
        simp only [u16Max] at healthBounds ⊢
        omega
      · simp only [animate]
        exact changeAttributes_shown found rfl

/-! ## Setting emos -/

theorem addEmo_told {playerIndex : PlayerIndex} {emoIndex id count : Nat} {base : Base}
    {isTriple : Bool} {state after : St env} {calls : List Task}
    (bases : RegularBases env.emoBases) (found : env.emoBases id = some base)
    (performed : addEmo env playerIndex emoIndex
      { BattleEmo.newWithBase state.generatedIds base isTriple with
        attackAndSurvivedCount := count }
      { state with generatedIds := state.generatedIds + 1 } = .ok (calls, after)) :
    Told state after := by
  have own := (bases.regular id base found).triple isTriple
  unfold addEmo at performed
  dsimp only at performed
  split at performed
  · rename_i room
    simp only [Result.bind_eq_ok_iff, ensure_eq_ok_iff, BattleBoards.getEmo_eq_ok_iff,
      Result.pure_eq_ok_iff, Prod.mk.injEq] at performed
    obtain ⟨_, bound, _, _, _, rfl⟩ := performed
    simp only [BattleState.addLog_boards, BattleState.addLog_getBoard]
    intro regular
    refine ⟨?_, ?_⟩
    · refine regular.setBoard fun emo member => ?_
      rcases List.eq_or_mem_of_mem_insertIdx member with rfl | old
      · exact own
      · exact regular playerIndex emo old
    · have counted : Counted (.setEmo playerIndex emoIndex id isTriple count .ally) state.boards
          count := .inr (.inr (.inr ⟨_, _, _, _, _, rfl⟩))
      have change := Change.insert found isTriple room bound counted
      have written := addLog_logs enabled { state with generatedIds := state.generatedIds + 1 }
        (.add playerIndex emoIndex base.id (buildEmoAttributes base isTriple))
      refine .of_explained (change.explained enabled) written ?_
      intro entry member _
      rw [List.mem_singleton.mp member]
      exact ⟨base, bases.keyed id base found ▸ found⟩
  · cases performed
    exact .silent rfl rfl

theorem setEmo_told {playerIndex : PlayerIndex} {emoIndex baseId : Nat} {isTriple : Bool}
    {attackAndSurvivedCount : Nat} {side : Side} {state after : St env} {calls : List Task}
    (bases : RegularBases env.emoBases)
    (performed : setEmo env playerIndex emoIndex baseId isTriple attackAndSurvivedCount side
      state = .ok (calls, after)) : Told state after := by
  simp only [setEmo, Result.bind_eq_ok_iff, Emo.Bases.find_eq_ok_iff] at performed
  obtain ⟨base, found, performed⟩ := performed
  cases side with
  | ally => exact addEmo_told enabled bases found performed
  | rival => exact addEmo_told enabled bases found performed

/-! ## Tasks -/

theorem callAbilityNormalAction_told {playerIndex : PlayerIndex} {action : NormalAction}
    {actionEmoIndex : Nat} {retiredActionEmoOpt : Option BattleEmo} {isTripleAction : Bool}
    {state after : St env} {calls : List Task} (bases : RegularBases env.emoBases)
    (performed : callAbilityNormalAction env playerIndex action actionEmoIndex
      retiredActionEmoOpt isTripleAction state = .ok (calls, after)) : Told state after := by
  simp only [callAbilityNormalAction, Result.bind_eq_ok_iff] at performed
  obtain ⟨actionEmo, _, performed⟩ := performed
  cases action with
  | setEmo side baseId => exact setEmo_told enabled bases performed
  | setEmosByAttackDiv side baseId divisor =>
      simp only [setEmosByAttackDiv, Result.bind_eq_ok_iff, Result.pure_eq_ok_iff,
        Prod.mk.injEq] at performed
      obtain ⟨_, _, _, rfl⟩ := performed
      exact .silent rfl rfl
  | damageAll side damage =>
      cases side with
      | ally | rival =>
          cases performed
          exact .silent rfl rfl
  | increaseStats targetOrRandom attack health =>
      simp only [Result.bind_eq_ok_iff, Result.pure_eq_ok_iff, Prod.mk.injEq] at performed
      obtain ⟨_, performed, _, rfl⟩ := performed
      exact increaseStats_told enabled performed
  | decreaseStats targetOrRandom attack health =>
      simp only [Result.bind_eq_ok_iff, Result.pure_eq_ok_iff, Prod.mk.injEq] at performed
      obtain ⟨_, performed, _, rfl⟩ := performed
      exact decreaseStats_told enabled performed
  | increaseStatsByEmoCount side targetOrRandom countCondition attack health =>
      simp only [Result.bind_eq_ok_iff, Result.pure_eq_ok_iff, Prod.mk.injEq] at performed
      obtain ⟨_, performed, _, rfl⟩ := performed
      exact increaseStats_told enabled performed
  | addBattleAbility targetOrRandom ability =>
      simp only [Result.bind_eq_ok_iff, Result.pure_eq_ok_iff, Prod.mk.injEq] at performed
      obtain ⟨_, performed, _, rfl⟩ := performed
      exact addBattleAbility_told enabled performed

theorem act_told {task : Task} {playerIndex : PlayerIndex} {action : NormalAction}
    {actionEmoIndex : Nat} {retiredActionEmoOpt : Option BattleEmo} {state after : St env}
    {calls : List Task} (bases : RegularBases env.emoBases)
    (acts : task.act? = some (playerIndex, action, actionEmoIndex, retiredActionEmoOpt))
    (performed : perform env task state = .ok (calls, after)) : Told state after := by
  rcases act_cases acts performed with ⟨_, _, rfl⟩ | ⟨_, performed⟩
  · exact .silent rfl rfl
  · exact callAbilityNormalAction_told enabled bases performed

theorem perform_told {task : Task} {state after : St env} {calls : List Task}
    (bases : RegularBases env.emoBases)
    (performed : perform env task state = .ok (calls, after)) : Told state after := by
  cases task with
  | callPreAbilitiesOf | callEmoRetireBoardAbilities | callEmoRetireRivalAbilities | marchLoop =>
      cases performed
      exact .silent rfl rfl
  | attack attackPlayerIndex =>
      obtain ⟨attackEmoIndex, defenseEmoIndex, _, rng, chosen, defended, _, rfl⟩ :=
        attack_cases performed
      intro regular
      refine ⟨?_, .entry (addLog_logs enabled _ _) ⟨?_, ?_⟩ ?_⟩
      · rwa [BattleState.addLog_boards]
      · rw [shownState, BattleBoards.shown, List.length_map]
        exact getAttackEmoIndex_lt chosen
      · rw [shownState, BattleBoards.shown, List.length_map]
        exact getDefenseEmoIndex_lt defended
      · rw [shownState, shownState, BattleState.addLog_boards]
        rfl
  | attackDamage attackPlayerIndex attackEmoIndex defenseEmoIndex =>
      obtain ⟨_, _, _, _, _, _, damaged, _⟩ := attackDamage_cases performed
      exact damageEmo_told enabled damaged
  | attackDamageCounter attackPlayerIndex attackEmoIndex defenseEmoAttack attackEmoId =>
      rcases attackDamageCounter_cases performed with ⟨_, _, rfl⟩ | ⟨_, _, _, damaged, _⟩
      · exact .silent rfl rfl
      · exact damageEmo_told enabled damaged
  | countAttackAndSurvived attackPlayerIndex attackEmoIndex attackEmoId =>
      obtain ⟨emo, found, _, rfl⟩ := countAttackAndSurvived_cases performed
      intro regular
      have visible := shown_getElem? found
      obtain ⟨bound, same⟩ := List.getElem?_eq_some_iff.mp visible
      have kept : (state.boards.shown attackPlayerIndex).set attackEmoIndex emo.shown =
          state.boards.shown attackPlayerIndex := by
        rw [← same, List.set_getElem_self]
      refine ⟨regular.setEmo (regular _ emo (List.mem_of_getElem? found)), .silent rfl ?_⟩
      simp only [shownState, BattleBoards.shown_setEmo]
      exact (congrArg _ kept).trans (Function.update_eq_self _ _)
  | callAbilityNormalActionAsOneself | callShieldRemovedAbilityOf =>
      exact act_told enabled bases rfl performed
  | callAbilityGeneralAsAllyAction playerIndex action =>
      cases action with
      | oneselfTripleNormal normalAction => exact act_told enabled bases rfl performed
      | custom asAllyAction =>
          obtain ⟨rfl, _⟩ := custom_cases performed
          exact .silent rfl rfl
  | setEmo playerIndex emoIndex baseId isTriple attackAndSurvivedCount side =>
      exact setEmo_told enabled bases performed
  | damageAllEmosOf playerIndex damage emoId =>
      rcases damageAllEmosOf_cases performed with ⟨_, rfl⟩ | ⟨_, _, damaged⟩
      · exact .silent rfl rfl
      · exact damageEmo_told enabled damaged
  | marchBegin tick =>
      obtain ⟨rfl, _⟩ := marchBegin_cases performed
      exact .silent rfl rfl
  | marchNext tick =>
      obtain ⟨rfl, _⟩ := marchNext_cases performed
      exact .silent rfl rfl

end Enabled

/-! ## Marches -/

/-- What the logs of a march say fits the boards that they are read on, and they
lead from the initial boards to the final ones. -/
theorem march_told {fuel : Nat} {battleEmos0 battleEmos1 : List BattleEmo}
    {seed generatedIds grades0 grades1 : Nat} {state : St env}
    (enabled : env.isViewLogsEnabled = true) (bases : RegularBases env.emoBases)
    (regular : RegularBoards ⟨battleEmos0, battleEmos1⟩)
    (marched : march env fuel battleEmos0 battleEmos1 seed generatedIds =
      pure (grades0, grades1, state)) :
    Follows animate (LogFits env.emoBases) (BattleBoards.shown ⟨battleEmos0, battleEmos1⟩)
      state.logs state.boards.shown := by
  simp only [march, Fueled.bind_eq_pure_iff, Fueled.of_eq_pure_iff, okOr_eq_ok_iff,
    Fueled.pure_eq_pure_iff] at marched
  obtain ⟨after, executed, _, _, _, _, same⟩ := marched
  cases same
  have told := Reaches.state_invariant
    (P := Told (marchStart env battleEmos0 battleEmos1 seed generatedIds).state)
    (fun holds performed => holds.trans (perform_told enabled bases performed))
    (run_ok_returns executed) (.silent rfl rfl)
  obtain ⟨_, logs, written, followed⟩ := told regular
  have initial : (marchStart env battleEmos0 battleEmos1 seed generatedIds).state.logs = [] := rfl
  rw [initial, List.nil_append] at written
  dsimp only at written
  rw [written]
  exact followed

end EmojiBattler.Mtc.Battle
