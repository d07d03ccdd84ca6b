import EmojiBattler.Battle.Invariant

/-! # What a task does to the attack counts

A task leaves the attack counts alone, or it takes one emo with its count away,
or it sets one, or it is the last statement of `attack_damage`. -/

namespace EmojiBattler.Mtc.Battle

open EmojiBattler.Emo CallMachine
open EmojiBattler.Emo.Ability (Side)
open EmojiBattler.Emo.Ability.Battle (NormalAction)

variable {env : Env}

/-! ## The counts of a board -/

/-- The ids and the attack counts of the emos of a board. -/
def BattleBoards.tally (boards : BattleBoards) (playerIndex : PlayerIndex) : List (Nat × Nat) :=
  (boards.getBoard playerIndex).map fun emo => (emo.id, emo.attackAndSurvivedCount)

/-- The attack counts of the emos of a board. -/
def BattleBoards.attackCounts (boards : BattleBoards) (playerIndex : PlayerIndex) : List Nat :=
  (boards.getBoard playerIndex).map BattleEmo.attackAndSurvivedCount

theorem BattleBoards.tally_map_fst (boards : BattleBoards) (playerIndex : PlayerIndex) :
    (boards.tally playerIndex).map Prod.fst = boards.ids playerIndex := by
  rw [tally, List.map_map]
  rfl

theorem BattleBoards.tally_map_snd (boards : BattleBoards) (playerIndex : PlayerIndex) :
    (boards.tally playerIndex).map Prod.snd = boards.attackCounts playerIndex := by
  rw [tally, List.map_map]
  rfl

@[simp] theorem BattleBoards.length_tally (boards : BattleBoards) (playerIndex : PlayerIndex) :
    (boards.tally playerIndex).length = (boards.getBoard playerIndex).length :=
  List.length_map _

theorem BattleBoards.tally_getElem? {boards : BattleBoards} {playerIndex : PlayerIndex}
    {emoIndex : Nat} {emo : BattleEmo}
    (found : (boards.getBoard playerIndex)[emoIndex]? = some emo) :
    (boards.tally playerIndex)[emoIndex]? = some (emo.id, emo.attackAndSurvivedCount) := by
  rw [tally, List.getElem?_map, found]
  rfl

/-- An assignment to the attributes of an emo. -/
theorem BattleBoards.tally_setEmo {boards : BattleBoards} {playerIndex : PlayerIndex}
    {emoIndex : Nat} {emo : BattleEmo}
    (found : (boards.getBoard playerIndex)[emoIndex]? = some emo) (attributes : Attributes)
    (other : PlayerIndex) :
    (boards.setEmo playerIndex emoIndex { emo with attributes }).tally other =
      boards.tally other := by
  by_cases same : other = playerIndex
  · subst same
    obtain ⟨bound, rfl⟩ := List.getElem?_eq_some_iff.mp found
    rw [tally, setEmo, getBoard_setBoard, List.map_set]
    have kept := @List.set_getElem_self _ (boards.tally other) emoIndex (by simpa)
    simpa [tally] using kept
  · rw [tally, setEmo, getBoard_setBoard_of_ne same]
    rfl

/-- An assignment to the attack count of an emo. -/
theorem BattleBoards.tally_setEmo_count {boards : BattleBoards} {playerIndex : PlayerIndex}
    {emoIndex : Nat} {emo : BattleEmo} (count : Nat) :
    (boards.setEmo playerIndex emoIndex { emo with attackAndSurvivedCount := count }).tally
        playerIndex = (boards.tally playerIndex).set emoIndex (emo.id, count) ∧
      ∀ other ≠ playerIndex, (boards.setEmo playerIndex emoIndex
        { emo with attackAndSurvivedCount := count }).tally other = boards.tally other := by
  refine ⟨?_, fun other different => ?_⟩
  · rw [tally, setEmo, getBoard_setBoard, List.map_set]
    rfl
  · rw [tally, setEmo, getBoard_setBoard_of_ne different]
    rfl

theorem Write.tally {added : Option Ability.Battle} {before after : St env}
    (write : Write env added before after) (playerIndex : PlayerIndex) :
    after.boards.tally playerIndex = before.boards.tally playerIndex := by
  cases write with
  | rng => rfl
  | attack => rw [BattleState.addLog_boards]
  | increase found | decrease found | ability found | shield found =>
      rw [BattleState.addLog_boards]
      exact BattleBoards.tally_setEmo found _ playerIndex
  | damage found => exact BattleBoards.tally_setEmo found _ playerIndex

theorem Writes.tally {added : Option Ability.Battle} {before after : St env}
    (writes : Writes env added before after) (playerIndex : PlayerIndex) :
    after.boards.tally playerIndex = before.boards.tally playerIndex := by
  induction writes with
  | refl => rfl
  | tail _ write ih => exact (write.tally playerIndex).trans ih

/-! ## What a task does to the counts -/

/-- Where a task is about to set an emo and with which count, if it remembers
both from an earlier board. -/
def Task.remembered? (task : Task) : Option (PlayerIndex × Nat × Nat) :=
  match task.act?, task with
  | some (playerIndex, .setEmo .ally _, emoIndex, some retiredEmo), _ =>
      some (playerIndex, emoIndex, retiredEmo.attackAndSurvivedCount)
  | _, .setEmo playerIndex emoIndex _ _ attackAndSurvivedCount .ally =>
      some (playerIndex, emoIndex, attackAndSurvivedCount)
  | _, _ => none

/-- The places at which emos are set. -/
inductive Place (task : Task) (boards : BattleBoards) (playerIndex : PlayerIndex) (emoIndex : Nat)
    (count : Nat) : Prop
  | remembered (given : task.remembered? = some (playerIndex, emoIndex, count))
  | behind {actionEmoIndex : Nat} (next : emoIndex = actionEmoIndex + 1)
      (found : (boards.attackCounts playerIndex)[actionEmoIndex]? = some count)
  | last (bound : emoIndex = (boards.attackCounts playerIndex).length)
      (last : (boards.attackCounts playerIndex).getLast? = some count)
  | first (empty : boards.attackCounts playerIndex = []) (bound : emoIndex = 0)

/-- What a task does to the ids and the attack counts of a board. -/
inductive Tallied (task : Task) (before after : St env) (playerIndex : PlayerIndex) : Prop
  | kept (tally : after.boards.tally playerIndex = before.boards.tally playerIndex)
  | retired {emoIndex : Nat}
      (tally : after.boards.tally playerIndex = (before.boards.tally playerIndex).eraseIdx emoIndex)
  | joined {emoIndex count : Nat}
      (room : (before.getBoard playerIndex).length < boardEmoMaxCount)
      (bound : emoIndex ≤ (before.boards.tally playerIndex).length)
      (place : Place task before.boards playerIndex emoIndex count)
      (tally : after.boards.tally playerIndex = (before.boards.tally playerIndex).insertIdx emoIndex
        (generateBattleEmoId before.generatedIds, count))
  | counted {emoIndex emoId id count : Nat}
      (counts : task = .countAttackAndSurvived playerIndex emoIndex emoId)
      (found : (before.boards.tally playerIndex)[emoIndex]? = some (id, count))
      (tally : after.boards.tally playerIndex =
        (before.boards.tally playerIndex).set emoIndex (id, count + 1))

theorem Harm.tallied {task : Task} {damage : Nat} {playerIndex : PlayerIndex} {emoIndex : Nat}
    {survived : Bool} {before after : St env}
    (harm : Harm damage playerIndex emoIndex before.boards survived after.boards)
    (other : PlayerIndex) : Tallied task before after other := by
  generalize same : after.boards = boards at harm
  cases harm with
  | shield found | wounded found =>
      refine .kept ?_
      rw [same]
      exact BattleBoards.tally_setEmo found _ other
  | nothing => exact .kept (by rw [same])
  | retired found =>
      by_cases own : other = playerIndex
      · subst own
        refine @Tallied.retired _ _ _ _ _ emoIndex ?_
        rw [same, BattleBoards.tally, BattleBoards.getBoard_setBoard, ← List.eraseIdx_map]
        rfl
      · refine .kept ?_
        rw [same, BattleBoards.tally, BattleBoards.getBoard_setBoard_of_ne own]
        rfl

theorem addEmo_tallied {task : Task} {playerIndex : PlayerIndex} {emoIndex : Nat}
    {emo : BattleEmo} {state after : St env} {calls : List Task}
    (id : emo.id = generateBattleEmoId state.generatedIds)
    (place : Place task state.boards playerIndex emoIndex emo.attackAndSurvivedCount)
    (performed : addEmo env playerIndex emoIndex emo
      { state with generatedIds := state.generatedIds + 1 } = .ok (calls, after))
    (other : PlayerIndex) : Tallied task state after other := by
  rcases addEmo_cases performed with ⟨_, _, rfl⟩ | ⟨room, bound, boards, _⟩
  · exact .kept rfl
  · by_cases own : other = playerIndex
    · subst own
      refine .joined room (by simpa using bound) place ?_
      rw [boards, BattleBoards.tally, BattleBoards.getBoard_setBoard, List.map_insertIdx, id]
      rfl
    · refine .kept ?_
      rw [boards, BattleBoards.tally, BattleBoards.getBoard_setBoard_of_ne own]
      rfl

theorem setEmo_tallied {task : Task} {playerIndex : PlayerIndex} {emoIndex baseId : Nat}
    {isTriple : Bool} {attackAndSurvivedCount : Nat} {side : Side} {state after : St env}
    {calls : List Task}
    (place : side = .ally → Place task state.boards playerIndex emoIndex attackAndSurvivedCount)
    (performed : setEmo env playerIndex emoIndex baseId isTriple attackAndSurvivedCount side
      state = .ok (calls, after)) (other : PlayerIndex) : Tallied task state after other := by
  simp only [setEmo, Result.bind_eq_ok_iff] at performed
  obtain ⟨base, _, performed⟩ := performed
  cases side with
  | ally => exact addEmo_tallied rfl (place rfl) performed other
  | rival =>
      refine addEmo_tallied rfl ?_ performed other
      -- The new rival counts as the last emo of its board.
      cases last : (state.getBoard (switchPlayerIndex playerIndex)).getLast? with
      | some emo =>
          refine .last (List.length_map _).symm ?_
          rw [BattleBoards.attackCounts, List.getLast?_map, last]
          rfl
      | none =>
          have empty := List.getLast?_eq_none_iff.mp last
          exact .first (List.map_eq_nil_iff.mpr empty) (congrArg List.length empty)

theorem Acted.tallied {task : Task} {playerIndex : PlayerIndex} {action : NormalAction}
    {actionEmoIndex : Nat} {retiredActionEmoOpt : Option BattleEmo} {state after : St env}
    {calls : List Task}
    (acts : task.act? = some (playerIndex, action, actionEmoIndex, retiredActionEmoOpt))
    (acted : Acted env playerIndex action actionEmoIndex retiredActionEmoOpt state calls after)
    (other : PlayerIndex) : Tallied task state after other := by
  cases acted with
  | set sets found performed =>
      refine setEmo_tallied (fun same => ?_) performed other
      subst sets same
      cases retiredActionEmoOpt with
      | some retiredEmo =>
          cases found
          refine .remembered ?_
          simp [Task.remembered?, acts]
      | none =>
          simp only [getActionEmo, BattleBoards.getEmo_eq_ok_iff] at found
          refine .behind rfl ?_
          rw [BattleBoards.attackCounts, List.getElem?_map, found]
          rfl
  | callsSet _ _ _ same | callsDamage _ same =>
      subst same
      exact .kept rfl
  | writes writes _ => exact .kept (writes.tally other)

theorem perform_tallied {task : Task} {state after : St env} {calls : List Task}
    (performed : perform env task state = .ok (calls, after)) (playerIndex : PlayerIndex) :
    Tallied task state after playerIndex := by
  cases perform_deed performed with
  | none writes => exact .kept (writes.tally playerIndex)
  | damage damaged => exact (damageEmo_harm damaged).tallied playerIndex
  | action acts performed => exact (callAbilityNormalAction_acted performed).tallied acts playerIndex
  | set sets performed =>
      subst sets
      refine setEmo_tallied (fun same => ?_) performed playerIndex
      subst same
      exact .remembered rfl
  | @count player emoIndex emoId emo counts found counted =>
      subst counted
      obtain ⟨tally, others⟩ := @BattleBoards.tally_setEmo_count state.boards player emoIndex emo
        (emo.attackAndSurvivedCount + 1)
      by_cases own : playerIndex = player
      · subst own
        exact .counted counts (BattleBoards.tally_getElem? found) tally
      · exact .kept (others playerIndex own)

/-- An emo that is set as remembered joins its board there, if there is room. -/
theorem perform_remembered {task : Task} {playerIndex : PlayerIndex} {emoIndex count : Nat}
    {state after : St env} {calls : List Task}
    (remembers : task.remembered? = some (playerIndex, emoIndex, count))
    (room : (state.getBoard playerIndex).length < boardEmoMaxCount)
    (performed : perform env task state = .ok (calls, after)) :
    emoIndex ≤ (state.boards.attackCounts playerIndex).length ∧
      after.boards.attackCounts playerIndex =
        (state.boards.attackCounts playerIndex).insertIdx emoIndex count := by
  have joined {baseId : Nat} {isTriple : Bool}
      (performed : setEmo env playerIndex emoIndex baseId isTriple count .ally state =
        .ok (calls, after)) :
      emoIndex ≤ (state.boards.attackCounts playerIndex).length ∧
        after.boards.attackCounts playerIndex =
          (state.boards.attackCounts playerIndex).insertIdx emoIndex count := by
    simp only [setEmo, Result.bind_eq_ok_iff] at performed
    obtain ⟨base, _, performed⟩ := performed
    rcases addEmo_cases performed with ⟨full, _⟩ | ⟨_, bound, boards, _⟩
    · exact absurd room (Nat.not_lt.mpr full)
    · refine ⟨by simpa [BattleBoards.attackCounts] using bound, ?_⟩
      rw [boards, BattleBoards.attackCounts, BattleBoards.getBoard_setBoard, List.map_insertIdx]
      rfl
  unfold Task.remembered? at remembers
  split at remembers
  · rename_i acts
    cases remembers
    rcases act_cases acts performed with ⟨none, _⟩ | ⟨_, performed⟩
    · cases none
    · simp only [callAbilityNormalAction, getActionEmo, Result.bind_eq_ok_iff] at performed
      obtain ⟨_, found, performed⟩ := performed
      cases found
      exact joined performed
  · cases remembers
    exact joined performed
  · cases remembers

end EmojiBattler.Mtc.Battle
