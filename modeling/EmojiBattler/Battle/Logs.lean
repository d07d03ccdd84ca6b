import EmojiBattler.Library.Replay
import EmojiBattler.Battle.Changes

/-! # The logs of a battle

The front shows a battle by its logs.  Reading them in order on the initial
boards gives the boards that the battle ends with. -/

namespace EmojiBattler.Mtc.Battle

open EmojiBattler.Emo CallMachine
open Function (update)
open Replay (Explained replay)

/-- The boards that the front shows. -/
abbrev ShownBoards := PlayerIndex → GhostBoard

def BattleEmo.shown (emo : BattleEmo) : GhostBoardEmo where
  baseId := emo.baseId
  attributes := emo.attributes

def BattleBoards.shown (boards : BattleBoards) : ShownBoards :=
  fun playerIndex => (boards.getBoard playerIndex).map BattleEmo.shown

/-- Changes the attributes of a shown emo. -/
def changeAttributes (boards : ShownBoards) (playerIndex : PlayerIndex) (emoIndex : Nat)
    (change : Attributes → Option Attributes) : Option ShownBoards := do
  let emo ← (boards playerIndex)[emoIndex]?
  let attributes ← change emo.attributes
  return update boards playerIndex ((boards playerIndex).set emoIndex { emo with attributes })

/-- What a log does to the boards that the front shows. -/
def animate (boards : ShownBoards) : Log → Option ShownBoards
  | .attack _ _ _ => some boards
  | .damage playerIndex emoIndex _ health =>
      changeAttributes boards playerIndex emoIndex fun attributes =>
        some { attributes with health }
  | .remove playerIndex emoIndex =>
      if emoIndex < (boards playerIndex).length then
        some (update boards playerIndex ((boards playerIndex).eraseIdx emoIndex))
      else none
  | .add playerIndex emoIndex baseId attributes =>
      if emoIndex ≤ (boards playerIndex).length then
        some (update boards playerIndex
          ((boards playerIndex).insertIdx emoIndex { baseId, attributes }))
      else none
  | .increaseStats playerIndex emoIndex _ _ calculatedAttack calculatedHealth =>
      changeAttributes boards playerIndex emoIndex fun attributes =>
        some { attributes with attack := calculatedAttack, health := calculatedHealth }
  | .decreaseStats playerIndex emoIndex _ _ calculatedAttack calculatedHealth =>
      changeAttributes boards playerIndex emoIndex fun attributes =>
        some { attributes with attack := calculatedAttack, health := calculatedHealth }
  | .addBattleAbility playerIndex emoIndex ability _ =>
      changeAttributes boards playerIndex emoIndex fun attributes =>
        some { attributes with abilities := attributes.abilities ++ [.battle ability] }
  | .removeBattleAbility playerIndex emoIndex abilityIndex _ =>
      changeAttributes boards playerIndex emoIndex fun attributes =>
        if abilityIndex < attributes.abilities.length then
          some { attributes with abilities := attributes.abilities.eraseIdx abilityIndex }
        else none

variable {env : Env}

def shownState (state : St env) : ShownBoards := state.boards.shown

/-- The logs between two states lead from the boards of the first to those of
the second. -/
abbrev LogsExplain : St env → St env → Prop := Explained animate BattleState.logs shownState

/-! ## Boards and what is shown of them -/

theorem BattleBoards.shown_setBoard (boards : BattleBoards) (playerIndex : PlayerIndex)
    (board : List BattleEmo) :
    (boards.setBoard playerIndex board).shown =
      update boards.shown playerIndex (board.map BattleEmo.shown) := by
  funext other
  by_cases same : other = playerIndex
  · subst same
    rw [Function.update_self, shown, getBoard_setBoard]
  · rw [Function.update_of_ne same, shown, getBoard_setBoard_of_ne same, shown]

theorem BattleBoards.shown_setEmo (boards : BattleBoards) (playerIndex : PlayerIndex)
    (emoIndex : Nat) (emo : BattleEmo) :
    (boards.setEmo playerIndex emoIndex emo).shown =
      update boards.shown playerIndex ((boards.shown playerIndex).set emoIndex emo.shown) := by
  rw [setEmo, shown_setBoard, List.map_set, shown]

theorem changeAttributes_shown {boards : BattleBoards} {playerIndex : PlayerIndex}
    {emoIndex : Nat} {emo : BattleEmo} {attributes : Attributes}
    {change : Attributes → Option Attributes}
    (found : (boards.getBoard playerIndex)[emoIndex]? = some emo)
    (changed : change emo.attributes = some attributes) :
    changeAttributes boards.shown playerIndex emoIndex change =
      some (boards.setEmo playerIndex emoIndex { emo with attributes }).shown := by
  have visible : (boards.shown playerIndex)[emoIndex]? = some emo.shown := by
    rw [BattleBoards.shown, List.getElem?_map, found]
    rfl
  simp only [changeAttributes, visible, Option.bind_eq_bind, Option.bind_some]
  rw [BattleEmo.shown, changed, BattleBoards.shown_setEmo]
  rfl

/-! ## The logs of a change -/

theorem addLog_logs (enabled : env.isViewLogsEnabled = true) (state : St env) (log : Log) :
    (state.addLog env log).logs = state.logs ++ [log] := by
  rw [BattleState.addLog, if_pos enabled]

section Enabled

variable (enabled : env.isViewLogsEnabled = true)

include enabled

/-- An assignment and its log. -/
theorem LogsExplain.logged {state changed : St env} {log : Log}
    (quiet : changed.logs = state.logs)
    (animated : animate (shownState state) log = some (shownState changed)) :
    LogsExplain state (changed.addLog env log) := by
  refine @Explained.entry _ _ _ _ _ _ _ _ log ?_ ?_
  · rw [addLog_logs enabled, quiet]
  · rw [animated, shownState, shownState, BattleState.addLog_boards]

theorem Write.explained {added : Option Ability.Battle} {before after : St env}
    (write : Write env added before after) : LogsExplain before after := by
  cases write with
  | rng => exact .silent rfl rfl
  | attack => exact LogsExplain.logged enabled rfl rfl
  | increase found | decrease found | ability found =>
      refine LogsExplain.logged enabled rfl ?_
      simp only [animate, shownState]
      exact changeAttributes_shown found rfl
  | shield found listed =>
      have bound := (List.getElem?_eq_some_iff.mp listed).1
      refine LogsExplain.logged enabled rfl ?_
      simp only [animate, shownState]
      exact changeAttributes_shown found (if_pos bound)
  | damage found damage =>
      refine .entry (addLog_logs enabled _ _) ?_
      simp only [animate, shownState]
      exact changeAttributes_shown found rfl

/-- A retired emo is shown with no health before it is removed. -/
theorem retire_explained {state : St env} {playerIndex : PlayerIndex} {emoIndex : Nat}
    {emo : BattleEmo} (found : (state.getBoard playerIndex)[emoIndex]? = some emo)
    (damage : Nat) :
    LogsExplain state (BattleState.addLog env
      { state.addLog env (.damage playerIndex emoIndex damage 0) with
        boards := state.boards.setBoard playerIndex
          ((state.getBoard playerIndex).eraseIdx emoIndex) }
      (.remove playerIndex emoIndex)) := by
  have damaged : LogsExplain state
      { state.addLog env (.damage playerIndex emoIndex damage 0) with
        boards := state.boards.setEmo playerIndex emoIndex
          { emo with attributes := { emo.attributes with health := 0 } } } := by
    refine .entry (addLog_logs enabled _ _) ?_
    simp only [animate, shownState]
    exact changeAttributes_shown found rfl
  refine damaged.trans (LogsExplain.logged enabled rfl ?_)
  have bound : emoIndex < (state.boards.shown playerIndex).length := by
    rw [BattleBoards.shown, List.length_map]
    exact (List.getElem?_eq_some_iff.mp found).1
  simp only [animate, shownState, BattleBoards.shown_setEmo, BattleBoards.shown_setBoard,
    Function.update_self, Function.update_idem, List.length_set, if_pos bound]
  rw [List.eraseIdx_set_eq, BattleBoards.shown, List.eraseIdx_map]

theorem Change.explained {task : Task} {before after : St env}
    (change : Change env task before after) : LogsExplain before after := by
  cases change with
  | write write => exact write.explained enabled
  | noRoom => exact .silent rfl rfl
  | @insert playerIndex position id count base found isTriple room bound counted =>
      refine .entry (addLog_logs enabled _ _) ?_
      have bound : position ≤ (shownState before playerIndex).length := by
        rwa [shownState, BattleBoards.shown, List.length_map]
      have animated : animate (shownState before) (.add playerIndex position base.id
          (buildEmoAttributes base isTriple)) = some (update (shownState before) playerIndex
            ((shownState before playerIndex).insertIdx position
              { baseId := base.id, attributes := buildEmoAttributes base isTriple })) :=
        if_pos bound
      rw [animated]
      simp only [shownState, BattleBoards.shown_setBoard, List.map_insertIdx]
      rfl
  | retire found damage => exact retire_explained enabled found damage
  | @count playerIndex emoIndex emoId emo _ found =>
      refine .silent rfl ?_
      have visible : (before.boards.shown playerIndex)[emoIndex]? = some emo.shown := by
        rw [BattleBoards.shown, List.getElem?_map, found]
        rfl
      obtain ⟨bound, same⟩ := List.getElem?_eq_some_iff.mp visible
      have kept : (before.boards.shown playerIndex).set emoIndex emo.shown =
          before.boards.shown playerIndex := by
        rw [← same, List.set_getElem_self]
      simp only [shownState, BattleBoards.shown_setEmo]
      exact (congrArg _ kept).trans (Function.update_eq_self _ _)

theorem perform_explained {task : Task} {state after : St env} {calls : List Task}
    (performed : perform env task state = .ok (calls, after)) : LogsExplain state after := by
  have explained {last : St env} (changes : Changes env task state last) :
      LogsExplain state last := by
    induction changes with
    | refl => exact .refl _
    | tail _ change ih => exact ih.trans (change.explained enabled)
  exact explained (perform_changes performed)

end Enabled

/-! ## The logs of a march -/

theorem sumGrades_saturates {board : List BattleEmo} {grades : Nat}
    (summed : sumGrades env board = .ok grades) : grades = min u8Max (gradeSum env board) := by
  have continued : ∀ {board : List BattleEmo} {start : Nat}, start ≤ u8Max →
      board.foldlM (fun sum emo => do
        let base ← env.emoBases.find emo.baseId
        return saturatingAddU8 sum base.grade) start = .ok grades →
      grades = min u8Max (start + gradeSum env board) := by
    intro board
    induction board with
    | nil =>
        intro start small summed
        cases summed
        simpa [gradeSum] using (Nat.min_eq_right small).symm
    | cons emo rest ih =>
        intro start small summed
        simp only [List.foldlM_cons, Result.bind_eq_ok_iff, Emo.Bases.find_eq_ok_iff,
          Result.pure_eq_ok_iff] at summed
        obtain ⟨_, ⟨base, resolved, rfl⟩, summed⟩ := summed
        have total := ih (Nat.min_le_left _ _) summed
        have split : gradeSum env (emo :: rest) = base.grade + gradeSum env rest := by
          simp [gradeSum, gradeOf, resolved]
        rw [total, split]
        omega
  simpa using continued (Nat.zero_le _) summed

/-- The logs of a march lead from its initial boards to its final ones, and it
returns the sums of the grades of these. -/
theorem march_logs_replay {fuel : Nat} {battleEmos0 battleEmos1 : List BattleEmo}
    {seed generatedIds grades0 grades1 : Nat} {state : St env}
    (enabled : env.isViewLogsEnabled = true)
    (marched : march env fuel battleEmos0 battleEmos1 seed generatedIds =
      pure (grades0, grades1, state)) :
    replay animate (BattleBoards.shown ⟨battleEmos0, battleEmos1⟩) state.logs =
        some state.boards.shown ∧
      grades0 = min u8Max (gradeSum env (state.getBoard .zero)) ∧
      grades1 = min u8Max (gradeSum env (state.getBoard .one)) := by
  simp only [march, Fueled.bind_eq_pure_iff, Fueled.of_eq_pure_iff, okOr_eq_ok_iff,
    Fueled.pure_eq_pure_iff] at marched
  obtain ⟨after, executed, finished, remaining, ⟨left, right⟩, rfl, same⟩ := marched
  cases same
  have returned := run_ok_returns executed
  obtain ⟨logs, written, replayed⟩ := Explained.reaches (perform_explained enabled) returned
  refine ⟨?_, ?_⟩
  · have initial : (marchStart env battleEmos0 battleEmos1 seed generatedIds).state.logs = [] := rfl
    dsimp only at written replayed
    rw [written, initial, List.nil_append]
    exact replayed
  · simp only [getRemainingGradesIfFinished] at remaining
    split at remaining
    · simp only [Result.bind_eq_ok_iff, Result.pure_eq_ok_iff, Option.some.injEq,
        Prod.mk.injEq] at remaining
      obtain ⟨_, summed0, _, summed1, rfl, rfl⟩ := remaining
      exact ⟨sumGrades_saturates summed0, sumGrades_saturates summed1⟩
    · cases remaining

/-- An emo that sets another one when it retires, against a stronger one. -/
theorem march_logs_replay_successor :
    ∃ (env : Env) (battleEmos0 battleEmos1 : List BattleEmo) (grades0 grades1 : Nat)
      (state : St env),
      march env 30 battleEmos0 battleEmos1 0 2 = pure (grades0, grades1, state) ∧
      state.logs.length = 9 ∧
      replay animate (BattleBoards.shown ⟨battleEmos0, battleEmos1⟩) state.logs =
        some state.boards.shown := by
  let successor : Base := ⟨0, .human, 1, 1, 1, []⟩
  let founder : Base := ⟨1, .human, 1, 1, 1,
    [.battle (.general (.asOneself .retire (.setEmo .ally 0)))]⟩
  let fighter : Base := ⟨2, .human, 1, 1, 5, []⟩
  let env : Env :=
    { emoBases := fun id =>
        if id = 0 then some successor else if id = 1 then some founder else some fighter
      sampler := .first
      isViewLogsEnabled := true }
  let battleEmos0 := [BattleEmo.newWithBase 0 founder false]
  let battleEmos1 := [BattleEmo.newWithBase 1 fighter false]
  have executed : (march env 30 battleEmos0 battleEmos1 0 2).value?.any fun result =>
      result.2.2.logs.length = 9 := by
    decide +kernel
  obtain ⟨⟨grades0, grades1, state⟩, marched, logged⟩ := Fueled.exists_of_value? executed
  exact ⟨env, battleEmos0, battleEmos1, grades0, grades1, state, marched,
    of_decide_eq_true logged, (march_logs_replay rfl marched).1⟩

end EmojiBattler.Mtc.Battle
