import EmojiBattler.Library.Termination
import EmojiBattler.Library.Weights
import EmojiBattler.Mtc.Setup
import EmojiBattler.Battle.Soundness

/-! # When the cascade of a battle is finite

Damage that has a consequence takes an emo or a shield off the boards, so a
cascade ends unless abilities keep putting emos or shields back. -/

namespace EmojiBattler.Mtc.Battle

open EmojiBattler.Emo CallMachine
open EmojiBattler.Emo.Ability (Side)
open EmojiBattler.Emo.Ability.Battle (NormalAction GeneralAsAllyAction AsAllyAction)

variable {env : Env}

def countShields (emo : BattleEmo) : Nat :=
  emo.attributes.abilities.countP fun ability => ability = .battle (.special .shield)

/-- How many emos and shields stand on a board. -/
def boardEndurance (board : List BattleEmo) : Nat :=
  (board.map fun emo => countShields emo + 1).sum

def BattleBoards.endurance (boards : BattleBoards) : Nat :=
  boardEndurance boards.board0 + boardEndurance boards.board1

/-- How deep the calls of a task nest while no emo or shield comes or goes. -/
def Task.depth : Task → Nat
  | .setEmo .. | .damageAllEmosOf .. | .countAttackAndSurvived .. => 0
  | .callAbilityNormalActionAsOneself .. | .callShieldRemovedAbilityOf ..
  | .attackDamageCounter .. => 1
  | .callAbilityGeneralAsAllyAction .. | .attackDamage .. => 2
  | .callPreAbilitiesOf _ | .callEmoRetireBoardAbilities .. | .callEmoRetireRivalAbilities ..
  | .attack _ => 3
  | .marchNext tick => 2 * (u8Max - tick.num) + 4
  | .marchLoop tick => 2 * (u8Max - tick.num) + 5
  | .marchBegin tick => 2 * (u8Max - tick.num) + 6

/-! ## Weighing boards -/

/-- The weight of all emos of both boards. -/
def BattleBoards.weigh (weight : BattleEmo → Nat) (boards : BattleBoards) : Nat :=
  Weights.weigh weight boards.board0 + Weights.weigh weight boards.board1

theorem BattleBoards.endurance_eq (boards : BattleBoards) :
    boards.endurance = boards.weigh fun emo => countShields emo + 1 :=
  rfl

namespace BattleBoards

variable (weight : BattleEmo → Nat) {boards : BattleBoards} {playerIndex : PlayerIndex}
variable {position : Nat} {emo : BattleEmo}

theorem weigh_setBoard (boards : BattleBoards) (playerIndex : PlayerIndex)
    (board : List BattleEmo) :
    (boards.setBoard playerIndex board).weigh weight +
        Weights.weigh weight (boards.getBoard playerIndex) =
      boards.weigh weight + Weights.weigh weight board := by
  cases playerIndex <;> simp only [weigh, setBoard, getBoard] <;> omega

theorem weigh_insert (emo : BattleEmo)
    (bound : position ≤ (boards.getBoard playerIndex).length) :
    (boards.setBoard playerIndex
        ((boards.getBoard playerIndex).insertIdx position emo)).weigh weight =
      boards.weigh weight + weight emo := by
  have whole := boards.weigh_setBoard weight playerIndex
    ((boards.getBoard playerIndex).insertIdx position emo)
  rw [Weights.weigh_insertIdx weight emo bound] at whole
  omega

theorem weigh_erase (found : (boards.getBoard playerIndex)[position]? = some emo) :
    (boards.setBoard playerIndex
        ((boards.getBoard playerIndex).eraseIdx position)).weigh weight + weight emo =
      boards.weigh weight := by
  have whole := boards.weigh_setBoard weight playerIndex
    ((boards.getBoard playerIndex).eraseIdx position)
  have board := Weights.weigh_eraseIdx weight found
  omega

theorem weigh_setEmo (found : (boards.getBoard playerIndex)[position]? = some emo)
    (changed : BattleEmo) :
    (boards.setEmo playerIndex position changed).weigh weight + weight emo =
      boards.weigh weight + weight changed := by
  have whole := boards.weigh_setBoard weight playerIndex
    ((boards.getBoard playerIndex).set position changed)
  have board := Weights.weigh_set weight found changed
  dsimp only [setEmo]
  omega

end BattleBoards

theorem countShields_eraseIdx {abilities : List Ability} {abilityIndex : Nat}
    (listed : abilities[abilityIndex]? = some (.battle (.special .shield))) :
    abilities.countP (fun ability => ability = .battle (.special .shield)) =
      (abilities.eraseIdx abilityIndex).countP
        (fun ability => ability = .battle (.special .shield)) + 1 := by
  obtain ⟨bound, shield⟩ := List.getElem?_eq_some_iff.mp listed
  rw [← (List.getElem_cons_eraseIdx_perm bound).countP_eq, List.countP_cons, shield]
  simp

/-! ## Damage -/

theorem removeShield_endurance {playerIndex : PlayerIndex} {emoIndex shieldAbilityIndex : Nat}
    {emo : BattleEmo} {state after : St env} {calls : List Task}
    (found : (state.getBoard playerIndex)[emoIndex]? = some emo)
    (listed : emo.attributes.abilities[shieldAbilityIndex]? = some (.battle (.special .shield)))
    (performed : removeShield env playerIndex emoIndex shieldAbilityIndex state =
      .ok (calls, after)) : after.boards.endurance < state.boards.endurance := by
  simp only [removeShield, Result.bind_eq_ok_iff, BattleBoards.getEmoMut_eq_ok_iff] at performed
  obtain ⟨other, again, _, _, _, _, performed⟩ := performed
  obtain ⟨rfl, _⟩ := callShieldRemovedAbility_cases performed
  cases found.symm.trans again
  rw [BattleState.addLog_boards]
  have boards := BattleBoards.weigh_setEmo (fun emo => countShields emo + 1) found
    { emo with attributes := { emo.attributes with
      abilities := emo.attributes.abilities.eraseIdx shieldAbilityIndex } }
  have shields := countShields_eraseIdx listed
  simp only [countShields] at boards
  rw [BattleBoards.endurance_eq, BattleBoards.endurance_eq]
  simp only [countShields]
  omega

theorem retireEmo_endurance {playerIndex : PlayerIndex} {emoIndex : Nat} {state after : St env}
    {calls : List Task} (performed : retireEmo env playerIndex emoIndex state = .ok (calls, after)) :
    after.boards.endurance < state.boards.endurance := by
  obtain ⟨⟨bound, boards, _⟩, _⟩ := retireEmo_cases performed
  have removed := BattleBoards.weigh_erase (fun emo => countShields emo + 1)
    (List.getElem?_eq_getElem bound)
  simp only [BattleState.getBoard] at boards removed
  rw [boards, BattleBoards.endurance_eq, BattleBoards.endurance_eq]
  omega

/-- Damage that calls something has taken an emo or a shield. -/
theorem damageEmo_endurance {damage : Nat} {playerIndex : PlayerIndex} {emoIndex : Nat}
    {state after : St env} {survived : Bool} {calls : List Task}
    (performed : damageEmo env damage playerIndex emoIndex state =
      .ok (survived, calls, after)) :
    after.boards.endurance < state.boards.endurance ∨ calls = [] := by
  cases damageEmo_damaged performed with
  | shield found listed removed => exact .inl (removeShield_endurance found listed removed)
  | nothing => exact .inr rfl
  | retired _ _ retires =>
      have lower := retireEmo_endurance retires
      rw [BattleState.addLog_boards] at lower
      exact .inl lower
  | wounded => exact .inr rfl

/-! ## Setting emos -/

/-- An emo that is set where it finds room lifts the endurance. -/
theorem addEmo_endurance {playerIndex : PlayerIndex} {emoIndex : Nat} {emo : BattleEmo}
    {state after : St env} {calls : List Task}
    (performed : addEmo env playerIndex emoIndex emo state = .ok (calls, after)) :
    state.boards.endurance < after.boards.endurance ∨ calls = [] := by
  rcases addEmo_cases performed with ⟨_, rfl, _⟩ | ⟨_, bound, boards, _⟩
  · exact .inr rfl
  · apply Or.inl
    have added := BattleBoards.weigh_insert (fun emo => countShields emo + 1) emo bound
    rw [boards, BattleBoards.endurance_eq, BattleBoards.endurance_eq, added]
    omega

theorem setEmo_endurance {playerIndex : PlayerIndex} {emoIndex baseId : Nat} {isTriple : Bool}
    {attackAndSurvivedCount : Nat} {side : Side} {state after : St env} {calls : List Task}
    (performed : setEmo env playerIndex emoIndex baseId isTriple attackAndSurvivedCount side
      state = .ok (calls, after)) :
    state.boards.endurance < after.boards.endurance ∨ calls = [] := by
  simp only [setEmo, Result.bind_eq_ok_iff] at performed
  obtain ⟨base, _, performed⟩ := performed
  cases side with
  | ally =>
      have added := addEmo_endurance performed
      exact added
  | rival =>
      have added := addEmo_endurance performed
      exact added

/-! ## Tasks -/

/-- A task moves the endurance or calls only tasks that nest less deep. -/
def Descends (before after : St env) (calls : List Task) (depth : Nat) : Prop :=
  after.boards.endurance ≠ before.boards.endurance ∨ ∀ call ∈ calls, call.depth < depth

theorem Descends.of_nil {before after : St env} {calls : List Task} {depth : Nat}
    (none : calls = []) : Descends before after calls depth := by
  subst none
  exact .inr (List.forall_mem_nil _)

theorem damageEmo_descends {damage : Nat} {playerIndex : PlayerIndex} {emoIndex : Nat}
    {state after : St env} {survived : Bool} {calls : List Task} {depth : Nat}
    (performed : damageEmo env damage playerIndex emoIndex state =
      .ok (survived, calls, after)) {later : List Task}
    (lighter : ∀ call ∈ later, call.depth < depth) :
    Descends state after (calls ++ later) depth := by
  rcases damageEmo_endurance performed with lower | rfl
  · exact .inl (Nat.ne_of_lt lower)
  · exact .inr lighter

theorem Acted.descends {playerIndex : PlayerIndex} {action : NormalAction}
    {actionEmoIndex : Nat} {retiredActionEmoOpt : Option BattleEmo} {state after : St env}
    {calls : List Task}
    (acted : Acted env playerIndex action actionEmoIndex retiredActionEmoOpt state calls after) :
    Descends state after calls 1 := by
  cases acted with
  | set _ _ performed =>
      rcases setEmo_endurance performed with lifts | none
      · exact .inl (Nat.ne_of_gt lifts)
      · exact .of_nil none
  | callsSet _ _ made _ =>
      refine .inr fun call member => ?_
      rw [made call member]
      exact Nat.zero_lt_one
  | callsDamage made _ =>
      refine .inr fun call member => ?_
      obtain ⟨_, _, _, rfl⟩ := made call member
      exact Nat.zero_lt_one
  | writes _ none => exact .of_nil none

theorem perform_descends {task : Task} {state after : St env} {calls : List Task}
    (performed : perform env task state = .ok (calls, after)) :
    Descends state after calls task.depth := by
  cases task with
  | callPreAbilitiesOf playerIndex =>
      cases performed
      refine .inr fun call member => ?_
      obtain ⟨_, _, _, _, _, _, rfl⟩ := mem_callPreAbilitiesOf member
      simp [Task.depth]
  | attack attackPlayerIndex =>
      obtain ⟨_, _, _, _, _, _, rfl, _⟩ := attack_cases performed
      refine .inr fun call member => ?_
      rw [List.mem_singleton.mp member]
      exact Nat.lt_succ_self 2
  | attackDamage attackPlayerIndex attackEmoIndex defenseEmoIndex =>
      obtain ⟨_, _, _, _, _, _, damaged, rfl⟩ := attackDamage_cases performed
      refine damageEmo_descends damaged fun call member => ?_
      rw [List.mem_singleton.mp member]
      exact Nat.lt_succ_self 1
  | attackDamageCounter attackPlayerIndex attackEmoIndex defenseEmoAttack attackEmoId =>
      rcases attackDamageCounter_cases performed with
        ⟨_, rfl, rfl⟩ | ⟨survived, made, _, damaged, rfl⟩
      · exact .of_nil rfl
      · refine damageEmo_descends damaged fun call member => ?_
        cases survived with
        | true =>
            rw [List.mem_singleton.mp member]
            exact Nat.zero_lt_one
        | false => cases member
  | countAttackAndSurvived attackPlayerIndex attackEmoIndex attackEmoId =>
      obtain ⟨_, _, rfl, _⟩ := countAttackAndSurvived_cases performed
      exact .of_nil rfl
  | callAbilityNormalActionAsOneself | callShieldRemovedAbilityOf =>
      rcases act_cases rfl performed with ⟨_, rfl, rfl⟩ | ⟨_, performed⟩
      · exact .of_nil rfl
      · exact (callAbilityNormalAction_acted performed).descends
  | callAbilityGeneralAsAllyAction playerIndex action =>
      cases action with
      | oneselfTripleNormal normalAction =>
          rcases act_cases rfl performed with ⟨_, rfl, rfl⟩ | ⟨_, performed⟩
          · exact .of_nil rfl
          · exact (callAbilityNormalAction_acted performed).descends.imp_right
              fun lighter call member => Nat.lt_trans (lighter call member) Nat.one_lt_two
      | custom asAllyAction =>
          obtain ⟨_, _, _, made⟩ := custom_cases performed
          refine .inr fun call member => ?_
          obtain ⟨_, _, _, _, rfl⟩ := made call member
          exact Nat.one_lt_two
  | callEmoRetireBoardAbilities playerIndex retiredEmoIndex retiredEmo =>
      cases performed
      refine .inr fun call member => ?_
      rcases mem_callEmoRetireBoardAbilities member with
        ⟨_, _, _, _, _, rfl⟩ | ⟨_, _, _, _, _, _, rfl⟩
      · exact Nat.lt_succ_self 2
      · simp [Task.depth]
  | callEmoRetireRivalAbilities playerIndex retiredEmo =>
      cases performed
      refine .inr fun call member => ?_
      obtain ⟨_, _, _, _, _, _, rfl⟩ := mem_callEmoRetireRivalAbilities member
      simp [Task.depth]
  | setEmo playerIndex emoIndex baseId isTriple attackAndSurvivedCount side =>
      rcases setEmo_endurance performed with lifts | none
      · exact .inl (Nat.ne_of_gt lifts)
      · exact .of_nil none
  | damageAllEmosOf playerIndex damage emoId =>
      rcases damageAllEmosOf_cases performed with ⟨rfl, _⟩ | ⟨_, _, damaged⟩
      · exact .of_nil rfl
      · rw [← List.append_nil calls]
        exact damageEmo_descends damaged (List.forall_mem_nil _)
  | marchBegin tick =>
      obtain ⟨_, ⟨_, _, rfl⟩ | rfl⟩ := marchBegin_cases performed
      · exact .of_nil rfl
      · refine .inr fun call member => ?_
        rw [List.mem_singleton.mp member]
        exact Nat.lt_succ_self _
  | marchLoop tick =>
      cases performed
      refine .inr fun call member => ?_
      rcases List.mem_pair.mp member with rfl | rfl
      · simp only [Task.depth]
        omega
      · exact Nat.lt_succ_self _
  | marchNext tick =>
      obtain ⟨_, ⟨_, _, rfl⟩ | ⟨room, rfl⟩⟩ := marchNext_cases performed
      · exact .of_nil rfl
      · refine .inr fun call member => ?_
        rw [List.mem_singleton.mp member]
        simp only [Task.depth]
        omega

/-! ## Runs -/

/-- A cascade, or a whole march, is finite exactly if from some point on no step
leaves more emos and shields on the boards than it found: nothing but setting
emos and adding shields again and again keeps a battle from ending. -/
theorem battle_terminates_iff_refills_finitely_often (env : Env) (stack : List Task)
    (state : St env) :
    Terminates (perform env) ⟨stack, state⟩ ↔
      ∃ middle, Reaches (perform env) ⟨stack, state⟩ middle ∧
        ∀ task before calls after, PerformedIn (perform env) middle task before →
          perform env task before = .ok (calls, after) →
          after.boards.endurance ≤ before.boards.endurance :=
  @terminates_iff_neverLifts _ _ _ _ _ _ _ (fun state : St env => state.boards.endurance) Task.depth
    perform_descends _

/-! ## A cascade without end -/

/-- An emo that, when it retires, sets another one like it and damages it. -/
def recurringBase : Base :=
  ⟨0, .food, 1, 1, 1, [.battle (.general (.asOneself .retire (.setEmo .ally 0))),
    .battle (.general (.asOneself .retire (.damageAll .ally 1)))]⟩

def recurringEnv : Env where
  emoBases id := if id = 0 then some recurringBase else none
  sampler := .first

def recurringEmo (generatedIds : Nat) : BattleEmo :=
  .newWithBase generatedIds recurringBase false

/-- The defender is the emo with the last id. -/
def recurringState (generatedIds : Nat) : St recurringEnv where
  boards := { board0 := [recurringEmo 0], board1 := [recurringEmo generatedIds] }
  logs := []
  rng := ()
  generatedIds := generatedIds + 1

def retiredState (generatedIds : Nat) : St recurringEnv :=
  { recurringState generatedIds with boards := { board0 := [recurringEmo 0], board1 := [] } }

def retireCalls (emo : BattleEmo) : List Task :=
  [.callAbilityNormalActionAsOneself .one (.setEmo .ally 0) 0 (some emo) none,
    .callAbilityNormalActionAsOneself .one (.damageAll .ally 1) 0 (some emo) none,
    .callEmoRetireBoardAbilities .one 0 emo, .callEmoRetireRivalAbilities .one emo]

theorem damageEmo_recurring (generatedIds : Nat) :
    damageEmo recurringEnv 1 .one 0 (recurringState generatedIds) =
      .ok (false, retireCalls (recurringEmo generatedIds), retiredState generatedIds) :=
  rfl

/-- The retired emo is replaced, and its successor is about to be damaged. -/
theorem recurring_reaches (generatedIds : Nat) (rest : List Task) :
    Reaches (perform recurringEnv)
      ⟨retireCalls (recurringEmo generatedIds) ++ rest, retiredState generatedIds⟩
      ⟨.damageAllEmosOf .one 1 (recurringEmo (generatedIds + 1)).id ::
        .callEmoRetireBoardAbilities .one 0 (recurringEmo generatedIds) ::
        .callEmoRetireRivalAbilities .one (recurringEmo generatedIds) :: rest,
        recurringState (generatedIds + 1)⟩ :=
  @advance_reaches _ _ _ _ 2 _ _ rfl

theorem not_terminates_recurring (generatedIds : Nat) (rest : List Task) :
    ¬ Terminates (perform recurringEnv)
      ⟨.damageAllEmosOf .one 1 (recurringEmo generatedIds).id :: rest,
        recurringState generatedIds⟩ := by
  apply not_terminates_of_endless (P := fun config => ∃ generatedIds rest,
    config = ⟨.damageAllEmosOf .one 1 (recurringEmo generatedIds).id :: rest,
      recurringState generatedIds⟩)
  · rintro config ⟨generatedIds, rest, rfl⟩
    have found : (recurringState generatedIds).boards.findEmoIndexById .one
        (recurringEmo generatedIds).id = some 0 := by
      simp [BattleBoards.findEmoIndexById, recurringState, BattleBoards.getBoard]
    have damaged : perform recurringEnv
        (.damageAllEmosOf .one 1 (recurringEmo generatedIds).id) (recurringState generatedIds) =
          .ok (retireCalls (recurringEmo generatedIds), retiredState generatedIds) := by
      simp only [perform, found, damageEmo_recurring]
      rfl
    exact ⟨_, Relation.TransGen.head' (.call damaged) (recurring_reaches generatedIds rest),
      _, _, rfl⟩
  · exact ⟨generatedIds, rest, rfl⟩

theorem legalBases_recurringEnv : LegalBases recurringEnv.emoBases := by
  intro id base found battle listed
  simp only [recurringEnv] at found
  split at found <;> cases found
  have resolves : Resolves recurringEnv.emoBases 0 := ⟨recurringBase, rfl⟩
  rcases List.mem_pair.mp listed with same | same <;> cases same
  · simp only [LegalBattle, LegalGeneral, LegalNormalAction]
    exact resolves
  · simp only [LegalBattle, LegalGeneral, LegalNormalAction]

/-- The bases are accepted, what they set is known, and nothing divides by
zero; still no number of calls ends the attack. -/
theorem recurring_attack_never_ends :
    checkAndBuildEmoBases none recurringEnv.emoBases [0] [] true = .ok recurringEnv.emoBases ∧
      LegalBases recurringEnv.emoBases ∧
      (∀ playerIndex, ((recurringState 1).getBoard playerIndex).length ≤ boardEmoMaxCount) ∧
      (∀ playerIndex, ∀ emo ∈ (recurringState 1).getBoard playerIndex, ∃ id,
        emo = .newWithBase id recurringBase false) ∧
      ¬ Terminates (perform recurringEnv) ⟨[.attack .zero], recurringState 1⟩ ∧
      ∀ fuel, run (perform recurringEnv) fuel [.attack .zero] (recurringState 1) = none := by
  have endless : ¬ Terminates (perform recurringEnv) ⟨[.attack .zero], recurringState 1⟩ := by
    intro terminates
    apply not_terminates_recurring 2 [_, _, .attackDamageCounter .zero 0 1 0]
    apply terminates.of_reaches
    exact @advance_reaches _ _ _ _ 4 _ _ rfl
  refine ⟨rfl, legalBases_recurringEnv, fun playerIndex => ?_, fun playerIndex emo member => ?_,
    endless, fun fuel => ?_⟩
  · cases playerIndex <;> decide
  · cases playerIndex with
    | zero => exact ⟨0, List.mem_singleton.mp member⟩
    | one => exact ⟨1, List.mem_singleton.mp member⟩
  · rw [← Option.not_isSome_iff_eq_none]
    exact fun ended => endless (terminates_of_run ended)

end EmojiBattler.Mtc.Battle
