import Mathlib.Algebra.Group.Prod
import EmojiBattler.Library.Metered
import EmojiBattler.Battle.Emos
import EmojiBattler.Battle.Invariant
import EmojiBattler.Battle.Termination

/-! # How long a battle lasts

An attack takes health or a shield from both sides.  A battle is over when what
it started with and what its abilities added is used up. -/

namespace EmojiBattler.Mtc.Battle

open EmojiBattler.Emo CallMachine Contracts
open EmojiBattler.Emo.Ability.Battle (NormalAction GeneralAsAllyAction)

variable {env : Env}

/-- How many blows of a given strength an emo can take: its health counted in
blows, and its shields. -/
def stamina (blow : Nat) (emo : BattleEmo) : Nat :=
  (emo.attributes.health + (blow - 1)) / blow + countShields emo

def BattleBoards.stamina (boards : BattleBoards) (blow : Nat) (playerIndex : PlayerIndex) : Nat :=
  Weights.weigh (Battle.stamina blow) (boards.getBoard playerIndex)

/-- An emo that can give and take damage. -/
structure Vital (emo : BattleEmo) : Prop where
  attack : 1 ≤ emo.attributes.attack
  health : 1 ≤ emo.attributes.health

def VitalBoards (boards : BattleBoards) : Prop :=
  ∀ playerIndex, ∀ emo ∈ boards.getBoard playerIndex, Vital emo

def VitalBases (bases : Bases) : Prop :=
  ∀ id base, bases id = some base → 1 ≤ base.attack ∧ 1 ≤ base.health

/-! ## Damage -/

namespace Harm

variable {damage : Nat} {playerIndex : PlayerIndex} {emoIndex : Nat}
variable {before after : BattleBoards} {survived : Bool}

/-- Whoever has taken a blow can take one less. -/
theorem blows_lt {blow health damage : Nat} (positive : 1 ≤ blow) (strong : blow ≤ damage)
    (alive : damage < health) :
    (health - damage + (blow - 1)) / blow < (health + (blow - 1)) / blow := by
  have fewer : (health - damage + (blow - 1)) / blow ≤ (health - 1) / blow :=
    Nat.div_le_div_right (by omega)
  have more : (health + (blow - 1)) / blow = (health - 1) / blow + 1 := by
    rw [← Nat.add_div_right _ positive]
    congr 1
    omega
  omega

theorem one_le_stamina {blow : Nat} {emo : BattleEmo} (positive : 1 ≤ blow) (vital : Vital emo) :
    1 ≤ stamina blow emo := by
  have alive := vital.health
  have some : 1 ≤ (emo.attributes.health + (blow - 1)) / blow :=
    (Nat.one_le_div_iff positive).mpr (by omega)
  unfold stamina
  omega

/-- A blow takes something from the board that it hits. -/
theorem stamina_lt {blow : Nat}
    (harm : Harm damage playerIndex emoIndex before survived after)
    (boards : VitalBoards before) (positive : 1 ≤ blow) (strong : blow ≤ damage) :
    after.stamina blow playerIndex < before.stamina blow playerIndex := by
  unfold BattleBoards.stamina
  cases harm with
  | @shield emo abilityIndex found listed =>
      have board := Weights.weigh_set (Battle.stamina blow) found
        { emo with attributes := { emo.attributes with
          abilities := emo.attributes.abilities.eraseIdx abilityIndex } }
      have shields := countShields_eraseIdx listed
      rw [BattleBoards.setEmo, BattleBoards.getBoard_setBoard]
      simp only [Battle.stamina, countShields] at board ⊢
      omega
  | nothing none => omega
  | @wounded emo found alive =>
      have board := Weights.weigh_set (Battle.stamina blow) found
        { emo with attributes := { emo.attributes with health := emo.attributes.health - damage } }
      have fewer := blows_lt positive strong (Nat.lt_of_sub_pos alive)
      rw [BattleBoards.setEmo, BattleBoards.getBoard_setBoard]
      simp only [Battle.stamina, countShields] at board ⊢
      omega
  | @retired emo found =>
      have board := Weights.weigh_eraseIdx (Battle.stamina blow) found
      have alive := one_le_stamina positive (boards playerIndex emo (List.mem_of_getElem? found))
      rw [BattleBoards.getBoard_setBoard]
      omega

end Harm

/-! ## Boards stay vital -/

theorem buildEmoAttributes_vital {base : Base} (vital : 1 ≤ base.attack ∧ 1 ≤ base.health)
    (isTriple : Bool) : 1 ≤ (buildEmoAttributes base isTriple).attack ∧
      1 ≤ (buildEmoAttributes base isTriple).health := by
  obtain ⟨attack, health⟩ := vital
  refine ⟨?_, buildEmoAttributes_health health isTriple⟩
  unfold buildEmoAttributes saturatingMulU16 u16Max
  cases isTriple <;> simp <;> omega

theorem keptBy_vital (bases : VitalBases env.emoBases) (task : Task) :
    KeptBy env task fun _ emo => Vital emo where
  stats emo attack health := ⟨attack emo.attack, health emo.health⟩
  count _ emo := ⟨emo.attack, emo.health⟩
  shield _ emo := ⟨emo.attack, emo.health⟩
  ability _ _ emo := ⟨emo.attack, emo.health⟩
  set _ isTriple _ found _ :=
    let ⟨attack, health⟩ := buildEmoAttributes_vital (bases _ _ found) isTriple
    ⟨attack, health⟩

theorem perform_vital {task : Task} {state after : St env} {calls : List Task}
    (bases : VitalBases env.emoBases) (performed : perform env task state = .ok (calls, after))
    (vital : VitalBoards state.boards) : VitalBoards after.boards :=
  perform_every (keptBy_vital bases task) performed vital

/-! ## What an attack costs a board -/

/-- Whether an attack has cost a player a blow when this is the last of its
tasks.  Where the attacker's index finds nobody any more, the attacker's side
has lost an emo instead of the counter damage. -/
def Task.dealt (boards : BattleBoards) (player : PlayerIndex) : Task → Nat
  | .attack _ | .attackDamage .. => 0
  | .attackDamageCounter playerIndex emoIndex _ _ =>
      if player = playerIndex ∧ emoIndex < (boards.getBoard playerIndex).length then 0 else 1
  | _ => 1

def dealt (boards : BattleBoards) (player : PlayerIndex) (stack : List Task) : Nat :=
  match stack.reverse with
  | .marchNext _ :: last :: _ => last.dealt boards player
  | _ => 0

section Dealt

variable {player : PlayerIndex}

@[simp] theorem dealt_attacking (boards : BattleBoards) (calls : List Task) (last : Task)
    (tick : Tick) :
    dealt boards player (calls ++ [last, .marchNext tick]) = last.dealt boards player := by
  simp [dealt]

@[simp] theorem dealt_pre (boards : BattleBoards) (calls : List Task) (tick : Tick) :
    dealt boards player (calls ++ [.marchBegin tick]) = 0 := by
  simp [dealt]

theorem Task.dealt_le (boards : BattleBoards) (task : Task) : task.dealt boards player ≤ 1 := by
  cases task with
  | attackDamageCounter =>
      simp only [Task.dealt]
      split <;> omega
  | _ => simp [Task.dealt]

/-- What an attack has cost when these calls are all that is left of it. -/
theorem dealt_left_le (boards : BattleBoards) (calls : List Task) (tick : Tick) :
    completedAttacks (calls ++ [.marchNext tick]) +
      dealt boards player (calls ++ [.marchNext tick]) ≤ 1 := by
  rcases List.eq_nil_or_concat calls with rfl | ⟨waiting, next, rfl⟩
  · exact Nat.le_refl _
  · rw [List.concat_eq_append, List.append_assoc, completedAttacks_of_two (by simp),
      List.singleton_append, dealt_attacking, Nat.zero_add]
    exact next.dealt_le boards

variable {blow : Nat} (positive : 1 ≤ blow)

include positive

/-- A waiting attack costs nothing that stamina does not pay for. -/
theorem dealt_of_effect {added : Option Ability.Battle} {before after : St env}
    (effect : Effect env added before after) (vital : VitalBoards before.boards) (last : Task) :
    after.boards.stamina blow player + last.dealt after.boards player ≤
      before.boards.stamina blow player + last.dealt before.boards player +
        (after.boards.stamina blow player - before.boards.stamina blow player) := by
  cases last with
  | attackDamageCounter playerIndex emoIndex damage emoId =>
      simp only [Task.dealt]
      by_cases within : player = playerIndex ∧
          emoIndex < (before.boards.getBoard playerIndex).length
      · by_cases still : player = playerIndex ∧
            emoIndex < (after.boards.getBoard playerIndex).length
        · rw [if_pos within, if_pos still]
          omega
        · obtain ⟨rfl, within⟩ := within
          rw [if_neg still, if_pos ⟨rfl, within⟩]
          have shorter : ¬ emoIndex < (after.boards.getBoard player).length :=
            fun longer => still ⟨rfl, longer⟩
          cases effect with
          | update update =>
              have same := (update.boards player).length_eq
              omega
          | noRoom boards _ =>
              rw [boards] at shorter
              exact absurd within shorter
          | @insertion other position emo inserted =>
              rw [inserted.boards] at shorter
              by_cases same : player = other
              · subst same
                rw [BattleBoards.getBoard_setBoard,
                  List.length_insertIdx_of_le_length inserted.bound] at shorter
                exact absurd (Nat.lt_succ_of_lt within) shorter
              · rw [BattleBoards.getBoard_setBoard_of_ne same] at shorter
                exact absurd within shorter
          | @removal other position removed =>
              rw [removed.boards] at shorter ⊢
              by_cases same : player = other
              · subst same
                have found := List.getElem?_eq_getElem removed.bound
                have board := Weights.weigh_eraseIdx (Battle.stamina blow) found
                have alive := Harm.one_le_stamina positive
                  (vital player _ (List.mem_of_getElem? found))
                simp only [BattleBoards.stamina, BattleBoards.getBoard_setBoard,
                  BattleState.getBoard] at board alive ⊢
                omega
              · rw [BattleBoards.getBoard_setBoard_of_ne same] at shorter
                exact absurd within shorter
      · rw [if_neg within]
        have most : (if player = playerIndex ∧
            emoIndex < (after.boards.getBoard playerIndex).length then 0 else 1) ≤ 1 := by
          split <;> omega
        omega
  | _ =>
      simp only [Task.dealt]
      omega

/-- The last task of an attack that waits pays for what it costs. -/
theorem dealt_of_last {last : Task} {state after : St env} {calls : List Task} (tick : Tick)
    (vital : VitalBoards state.boards)
    (strong : ∀ playerIndex, ∀ emo ∈ state.getBoard playerIndex, blow ≤ emo.attributes.attack)
    (strikes : ∀ playerIndex emoIndex damage emoId,
      last = .attackDamageCounter playerIndex emoIndex damage emoId → blow ≤ damage)
    (performed : perform env last state = .ok (calls, after)) :
    after.boards.stamina blow player + (completedAttacks (calls ++ [.marchNext tick]) +
        dealt after.boards player (calls ++ [.marchNext tick])) ≤
      state.boards.stamina blow player + last.dealt state.boards player +
        (after.boards.stamina blow player - state.boards.stamina blow player) := by
  have left := @dealt_left_le player after.boards calls tick
  cases last with
  | attack attackPlayerIndex =>
      obtain ⟨_, _, _, _, _, _, rfl, rfl⟩ := attack_cases performed
      rw [BattleState.addLog_boards]
      simp [Task.dealt, completedAttacks, dealt]
  | attackDamage attackPlayerIndex attackEmoIndex defenseEmoIndex =>
      obtain ⟨attackEmo, defenseEmo, _, own, found, _, damaged, rfl⟩ := attackDamage_cases performed
      have strength := strong _ attackEmo (List.mem_of_getElem? found)
      rw [List.append_assoc, completedAttacks_of_two (by simp), List.singleton_append,
        dealt_attacking]
      by_cases attacker : player = attackPlayerIndex
      · -- The attacker's board is as it was.
        subst attacker
        have same := (damageEmo_cases damaged).2.1 player (switchPlayerIndex_ne player).symm
        simp only [BattleState.getBoard] at same found
        have bound := (List.getElem?_eq_some_iff.mp found).1
        simp only [Task.dealt, BattleBoards.stamina, same, bound, and_self, if_true]
        omega
      · have lost := (damageEmo_harm damaged).stamina_lt vital positive strength
        have defender : switchPlayerIndex attackPlayerIndex = player := by
          cases player <;> cases attackPlayerIndex <;> first | rfl | exact absurd rfl attacker
        rw [defender] at lost
        simp only [Task.dealt, attacker, false_and, if_false]
        omega
  | attackDamageCounter attackPlayerIndex attackEmoIndex defenseEmoAttack attackEmoId =>
      simp only [Task.dealt]
      by_cases hit : player = attackPlayerIndex ∧
          attackEmoIndex < (state.boards.getBoard attackPlayerIndex).length
      · obtain ⟨rfl, within⟩ := hit
        rw [if_pos ⟨rfl, within⟩]
        rcases attackDamageCounter_cases performed with
          ⟨missing, _⟩ | ⟨_, _, _, damaged, _⟩
        · exact absurd within (Nat.not_lt.mpr missing)
        · have lost := (damageEmo_harm damaged).stamina_lt vital positive (strikes _ _ _ _ rfl)
          omega
      · rw [if_neg hit]
        omega
  | _ =>
      simp only [Task.dealt]
      omega

end Dealt

/-! ## Runs -/

/-- What a step adds to the stamina of a board, and whether it completes an
attack. -/
def exchange (blow : Nat) (player : PlayerIndex) (before after : Config Task (St env)) :
    Nat × Nat :=
  (lift (fun state : St env => state.boards.stamina blow player) before after,
    completedAttacks after.stack)

/-- The emos of both boards have at least this attack. -/
def Strong (blow : Nat) (boards : BattleBoards) : Prop :=
  ∀ playerIndex, ∀ emo ∈ boards.getBoard playerIndex, blow ≤ emo.attributes.attack

/-- Attacks use up what the board of a player started with and what was added
to it. -/
structure Exhausting (blow : Nat) (player : PlayerIndex) (whole gained attacks : Nat)
    (config : Config Task (St env)) : Prop where
  phase : Phase attacks config.stack
  vital : VitalBoards config.state.boards
  strikes : ∀ playerIndex emoIndex damage emoId,
    .attackDamageCounter playerIndex emoIndex damage emoId ∈ config.stack → blow ≤ damage
  spent : config.state.boards.stamina blow player +
    (attacks + dealt config.state.boards player config.stack) ≤ whole + gained

variable {blow : Nat} {player : PlayerIndex}

theorem dealt_step {attacks : Nat} {task : Task} {rest calls : List Task} {state after : St env}
    (positive : 1 ≤ blow) (phase : Phase attacks (task :: rest)) (vital : VitalBoards state.boards)
    (strong : Strong blow state.boards)
    (strikes : ∀ playerIndex emoIndex damage emoId,
      task = .attackDamageCounter playerIndex emoIndex damage emoId → blow ≤ damage)
    (performed : perform env task state = .ok (calls, after)) :
    after.boards.stamina blow player +
        (completedAttacks (calls ++ rest) + dealt after.boards player (calls ++ rest)) ≤
      state.boards.stamina blow player + dealt state.boards player (task :: rest) +
        (after.boards.stamina blow player - state.boards.stamina blow player) := by
  have idle (none : completedAttacks (calls ++ rest) +
      dealt after.boards player (calls ++ rest) = 0) :
      after.boards.stamina blow player +
          (completedAttacks (calls ++ rest) + dealt after.boards player (calls ++ rest)) ≤
        state.boards.stamina blow player + dealt state.boards player (task :: rest) +
          (after.boards.stamina blow player - state.boards.stamina blow player) := by
    omega
  generalize whole : task :: rest = stack at phase
  cases phase with
  | @pre waiting playerIndex plain none =>
      cases waiting with
      | nil =>
          cases whole
          obtain ⟨_, ⟨_, _, rfl⟩ | rfl⟩ := marchBegin_cases performed
          · exact idle rfl
          · exact idle rfl
      | cons head tail =>
          cases whole
          apply idle
          change completedAttacks (calls ++ (tail ++ _)) +
            dealt after.boards player (calls ++ (tail ++ _)) = 0
          rw [← List.append_assoc, dealt_pre]
          cases calls ++ tail with
          | nil => rfl
          | cons => rw [completedAttacks_of_two (by simp)]
  | @ready tick num bound =>
      cases whole
      cases performed
      exact idle rfl
  | @attacking waiting last tick plain part num bound =>
      cases waiting with
      | nil =>
          cases whole
          rw [dealt_attacking]
          exact dealt_of_last positive tick vital strong strikes performed
      | cons head tail =>
          cases whole
          have paid := @dealt_of_effect env player blow positive _ _ _
            (perform_performs performed).effect vital last
          change after.boards.stamina blow player + (completedAttacks (calls ++ (tail ++ _)) +
              dealt after.boards player (calls ++ (tail ++ _))) ≤
            state.boards.stamina blow player + dealt state.boards player ((task :: tail) ++ _) +
              (after.boards.stamina blow player - state.boards.stamina blow player)
          rw [← List.append_assoc, completedAttacks_of_two (by simp; omega), dealt_attacking,
            dealt_attacking]
          omega
  | @attacked tick num bound =>
      cases whole
      obtain ⟨_, ⟨_, _, rfl⟩ | ⟨_, rfl⟩⟩ := marchNext_cases performed
      · exact idle rfl
      · exact idle rfl
  | finished => cases whole

variable {whole gained attacks : Nat}

theorem Exhausting.step {task : Task} {rest calls : List Task} {state after : St env}
    (exhausting : Exhausting blow player whole gained attacks ⟨task :: rest, state⟩)
    (positive : 1 ≤ blow) (strong : Strong blow state.boards) (bases : VitalBases env.emoBases)
    (performed : perform env task state = .ok (calls, after)) :
    Exhausting blow player whole
      (gained + (after.boards.stamina blow player - state.boards.stamina blow player))
      (attacks + completedAttacks (calls ++ rest)) ⟨calls ++ rest, after⟩ := by
  obtain ⟨phase, vital, strikes, spent⟩ := exhausting
  refine ⟨phase.step performed, perform_vital bases performed vital,
    fun playerIndex emoIndex damage emoId member => ?_, ?_⟩
  · rcases List.mem_append.mp member with new | old
    · cases (perform_performs performed).origin _ new with
      | counter _ _ defended => exact strong _ _ (List.mem_of_getElem? defended)
    · exact strikes _ _ _ _ (List.mem_cons_of_mem _ old)
  · have paid := @dealt_step env blow player _ _ _ _ _ _ positive phase vital strong
      (fun playerIndex emoIndex damage emoId same => strikes playerIndex emoIndex damage emoId
        (same ▸ List.mem_cons_self)) performed
    dsimp only at spent paid ⊢
    omega

theorem Exhausting.run {start last : Config Task (St env)} {total : Nat × Nat}
    (positive : 1 ≤ blow) (bases : VitalBases env.emoBases)
    (strong : ∀ last, Reaches (perform env) start last → Strong blow last.state.boards)
    (initial : Exhausting blow player whole 0 0 start)
    (run : MeteredRun (perform env) (exchange blow player) start total last) :
    Exhausting blow player whole total.1 total.2 last := by
  induction run with
  | start => exact initial
  | step run step ih =>
      cases step with
      | call performed => exact ih.step positive (strong _ run.reaches) bases performed

theorem AttackRun.of_metered {start last : Config Task (St env)}
    (run : MeteredRun (perform env) (fun _ after => completedAttacks after.stack) start attacks
      last) : AttackRun env start attacks last := by
  induction run with
  | start => exact .start
  | step _ step ih => exact ih.step step

/-! ## The end of a march -/

/-- A march goes on exactly if both boards have emos, and the grades do not run
into the tick. -/
theorem getRemainingGradesIfFinished_meets (boards : BattleBoards) :
    Meets (· ≠ .reachedMaximumTick) (getRemainingGradesIfFinished env boards)
      fun finished => finished = none ↔ ∀ playerIndex, boards.getBoard playerIndex ≠ [] := by
  have graded (board : List BattleEmo) :
      Meets (· ≠ .reachedMaximumTick) (sumGrades env board) fun _ => True := by
    refine Meets.foldlM trivial fun emo _ sum _ => ?_
    cases found : env.emoBases emo.baseId with
    | none => simp [Emo.Bases.find, okOr, found, bind, Except.bind]
    | some base => simp [Emo.Bases.find, okOr, found, bind, Except.bind]
  unfold getRemainingGradesIfFinished
  split
  · rename_i empty
    refine (graded _).bind fun _ _ => (graded _).bind fun _ _ => ?_
    simp only [meets_pure_iff, reduceCtorEq, false_iff]
    intro both
    simp [BattleBoards.isEmptyBoard, both] at empty
  · rename_i both
    simp only [meets_pure_iff, true_iff]
    intro playerIndex empty
    apply both
    cases playerIndex with
    | zero => simp [BattleBoards.isEmptyBoard, empty]
    | one => simp [BattleBoards.isEmptyBoard, empty]

/-- The tick ends a march after 255 attacks, with emos on both boards. -/
theorem marchNext_reachedMaximumTick {tick : Tick} {state : St env}
    (failed : perform env (.marchNext tick) state = .error .reachedMaximumTick) :
    u8Max ≤ tick.num ∧ ∀ playerIndex, state.getBoard playerIndex ≠ [] := by
  have remaining := @getRemainingGradesIfFinished_meets env state.boards
  simp only [perform, marchNext] at failed
  cases finished : getRemainingGradesIfFinished env state.boards with
  | error error =>
      rw [finished] at failed
      cases failed
      exact absurd rfl (remaining.error finished)
  | ok result =>
      rw [finished] at failed
      cases result with
      | some grades => cases failed
      | none =>
          refine ⟨?_, (remaining.result finished).mp rfl⟩
          by_contra room
          have ticks : tick.next = .ok { tick with num := tick.num + 1 } := if_pos (by omega)
          simp only [bind, Except.bind, ticks] at failed
          cases failed

/-- The tick counts the attacks. -/
theorem Phase.next_num {tick : Tick} {rest : List Task}
    (phase : Phase attacks (.marchNext tick :: rest)) : tick.num = attacks := by
  generalize whole : Task.marchNext tick :: rest = stack at phase
  cases phase with
  | @pre waiting player plain none =>
      cases waiting with
      | nil => cases whole
      | cons head tail =>
          cases whole
          cases plain _ List.mem_cons_self
  | @attacking waiting last tick plain part num bound =>
      cases waiting with
      | nil =>
          cases whole
          cases part
      | cons head tail =>
          cases whole
          cases plain _ List.mem_cons_self
  | attacked num =>
      cases whole
      exact num
  | ready | finished => cases whole

/-- Whatever the fuel, a march that returns returns the same or runs out of it. -/
theorem march_of_returns {battleEmos0 battleEmos1 : List BattleEmo}
    {seed generatedIds grades0 grades1 : Nat} {state : St env}
    (returned : Returns (perform env)
      (marchStart env battleEmos0 battleEmos1 seed generatedIds) state)
    (finished : getRemainingGradesIfFinished env state.boards = .ok (some (grades0, grades1)))
    (fuel : Nat) :
    march env fuel battleEmos0 battleEmos1 seed generatedIds = none ∨
      march env fuel battleEmos0 battleEmos1 seed generatedIds =
        pure (grades0, grades1, state) := by
  cases executed : run (perform env) fuel
      (marchStart env battleEmos0 battleEmos1 seed generatedIds).stack
      (marchStart env battleEmos0 battleEmos1 seed generatedIds).state with
  | none =>
      left
      simp only [march, executed]
      rfl
  | some result =>
      cases result with
      | error error =>
          have failed : runError (perform env) fuel
              (marchStart env battleEmos0 battleEmos1 seed generatedIds).stack
              (marchStart env battleEmos0 battleEmos1 seed generatedIds).state = some error := by
            simp only [runError, executed]
          exact absurd ⟨state, returned⟩ (terminates_of_runError failed).2
      | ok after =>
          right
          cases Returns.unique returned (run_ok_returns executed)
          simp only [march, Fueled.bind_eq_pure_iff, Fueled.of_eq_pure_iff, okOr_eq_ok_iff,
            Fueled.pure_eq_pure_iff]
          exact ⟨state, executed, _, finished, _, rfl, rfl⟩

theorem march_of_runError {fuel : Nat} {battleEmos0 battleEmos1 : List BattleEmo}
    {seed generatedIds : Nat} {error : MtcError}
    (failed : runError (perform env) fuel
      (marchStart env battleEmos0 battleEmos1 seed generatedIds).stack
      (marchStart env battleEmos0 battleEmos1 seed generatedIds).state = some error) :
    march env fuel battleEmos0 battleEmos1 seed generatedIds = some (.error error) := by
  unfold runError at failed
  split at failed
  · rename_i executed
    cases failed
    simp only [march, executed]
    rfl
  · cases failed

/-- An emo that another one like it retires with its 256th attack. -/
def toughBase : Base := ⟨0, .human, 1, 1, 256, []⟩

def toughEnv : Env where
  emoBases id := if id = 0 then some toughBase else none
  sampler := .first

end EmojiBattler.Mtc.Battle
