import EmojiBattler.Library.Replay
import EmojiBattler.Shop.Effects

/-! # The logs of the shop

The front shows the shop by the logs of an action.  Reading them in order on
the board from before the action gives the board after it. -/

namespace EmojiBattler.Mtc.Shop

open EmojiBattler.Emo Sampling
open Replay (Explained)

/-- The board without the emos at the indexes. -/
def removeIndexes (indexes : List Nat) (board : Board) : Board :=
  (board.zipIdx.filter fun (_, index) => index ∉ indexes).map Prod.fst

/-- What a log does to the board that the front shows. -/
def animate (board : Board) : BoardLog → Option Board
  | .add index boardEmo =>
      if index ≤ board.length then some (board.insertIdx index boardEmo) else none
  | .remove index => if index < board.length then some (board.eraseIdx index) else none
  | .move fromIndex toIndex => (swapElements board fromIndex toIndex).toOption
  | .increaseStats index _ _ calculatedAttack calculatedHealth => do
      let emo ← board[index]?
      return board.set index { emo with attributes :=
        { emo.attributes with attack := calculatedAttack, health := calculatedHealth } }
  | .addAbility index ability _ => do
      let emo ← board[index]?
      return board.set index { emo with attributes :=
        { emo.attributes with abilities := emo.attributes.abilities ++ [ability] } }
  | .triple removedIndexes =>
      if ∀ index ∈ removedIndexes, index < board.length then
        some (removeIndexes removedIndexes board)
      else none

def ShopState.view (state : ShopState) : Board := state.board.intoBoard

/-- The logs between two states lead from the board of the first to that of
the second. -/
abbrev LogsExplain : ShopState → ShopState → Prop :=
  Explained animate ShopState.logs ShopState.view

/-! ## Boards and their views -/

namespace ShopBoard

@[simp] theorem getElem?_intoBoard (board : ShopBoard) (index : Nat) :
    board.intoBoard[index]? = board[index]?.map ShopBoardEmo.intoBoardEmo :=
  List.getElem?_map

theorem intoBoard_set (board : ShopBoard) (index : Nat) (emo : ShopBoardEmo) :
    ShopBoard.intoBoard (board.set index emo) = board.intoBoard.set index emo.intoBoardEmo :=
  List.map_set

theorem intoBoard_insertIdx (board : ShopBoard) (index : Nat) (emo : ShopBoardEmo) :
    ShopBoard.intoBoard (board.insertIdx index emo) =
      board.intoBoard.insertIdx index emo.intoBoardEmo :=
  List.map_insertIdx ..

theorem intoBoard_eraseIdx (board : ShopBoard) (index : Nat) :
    ShopBoard.intoBoard (board.eraseIdx index) = board.intoBoard.eraseIdx index :=
  (List.eraseIdx_map _ _ _).symm

/-- Removing the indexes of the emos with a property removes these emos. -/
theorem removeIndexes_filter (holds : ShopBoardEmo → Bool) (board : ShopBoard) :
    removeIndexes ((board.zipIdx.filter fun (emo, _) => holds emo).map Prod.snd)
      board.intoBoard = ShopBoard.intoBoard (board.filter fun emo => !holds emo) := by
  have kept : ∀ entry ∈ board.zipIdx,
      decide (entry.2 ∉ (board.zipIdx.filter fun (emo, _) => holds emo).map Prod.snd) =
        !holds entry.1 := by
    rintro ⟨emo, index⟩ member
    have found := List.mem_zipIdx_iff_getElem?.mp member
    rw [← Bool.not_eq_eq_eq_not, Bool.eq_iff_iff]
    simp [Positions.mem_filter_zipIdx, found]
  simp only [removeIndexes, intoBoard, List.zipIdx_map, List.filter_map, List.map_map]
  have mapped : (board.zipIdx.filter fun entry => !holds entry.1).map Prod.fst =
      board.filter fun emo => !holds emo := by
    rw [← List.zipIdx_map_fst 0 board, List.filter_map]
    simp [Function.comp_def]
  rw [← mapped, List.map_map]
  congr 1
  exact List.filter_congr kept

end ShopBoard

/-! ## The logs of a task -/

theorem addLog_logs {env : Env} (enabled : env.isViewLogsEnabled = true) (state : ShopState)
    (log : BoardLog) : (state.addLog env log).logs = state.logs ++ [log] := by
  rw [ShopState.addLog, if_pos enabled]

variable {env : Env} (enabled : env.isViewLogsEnabled = true)

include enabled

/-- An assignment to an emo that is found at its index. -/
theorem setEmoAt_explained {state : ShopState} {index : Nat} {emo changed : ShopBoardEmo}
    {log : BoardLog} (found : state.board[index]? = some emo)
    (animated : state.view[index]? = some emo.intoBoardEmo →
      animate state.view log = some (state.view.set index changed.intoBoardEmo)) :
    LogsExplain state ((state.addLog env log).setEmoAt index changed) := by
  refine .entry (addLog_logs enabled state log) ?_
  rw [animated (by rw [ShopState.view, ShopBoard.getElem?_intoBoard, found]; rfl)]
  simp only [ShopState.view, ShopState.setEmoAt, ShopState.addLog_board,
    ShopBoard.intoBoard_set]

theorem Write.explained {before after : ShopState} (write : Write env before after) :
    LogsExplain before after := by
  cases write with
  | stats found | ability found =>
      refine setEmoAt_explained enabled found fun shown => ?_
      simp only [animate, shown]
      rfl
  | coin => exact .silent rfl rfl

theorem Writes.explained {before after : ShopState} (writes : Writes env before after) :
    LogsExplain before after := by
  induction writes with
  | refl => exact .refl _
  | tail _ write ih => exact ih.trans (write.explained enabled)

theorem addEmoWithBoardEmo_explained {newEmo : ShopBoardEmo} {emoIndex : Nat}
    {state after : ShopState} {calls : List (Task env.sampler)}
    (added : addEmoWithBoardEmo env newEmo emoIndex state = .ok (calls, after)) :
    LogsExplain state after := by
  simp only [addEmoWithBoardEmo, Result.bind_eq_ok_iff, ensure_eq_ok_iff, Result.pure_eq_ok_iff,
    Prod.mk.injEq] at added
  obtain ⟨_, _, _, bound, additionCalls, _, _, rfl⟩ := added
  have inside : state.board.countEmos ≤ state.board.length := Nat.mod_le ..
  refine .entry (addLog_logs enabled state _) ?_
  have bound : emoIndex ≤ state.view.length := by
    rw [ShopState.view, ShopBoard.intoBoard_length]
    omega
  simp only [animate]
  rw [if_pos bound]
  simp only [ShopState.view, ShopState.addLog_board, ShopBoard.intoBoard_insertIdx]

theorem addEmoCalls_explained {mtcEmoIds : List Nat} {baseId emoIndex : Nat} {isTriple : Bool}
    {state after : ShopState} {calls : List (Task env.sampler)}
    (added : addEmoCalls env mtcEmoIds baseId isTriple emoIndex state = .ok (calls, after)) :
    LogsExplain state after := by
  simp only [addEmoCalls, Result.bind_eq_ok_iff] at added
  obtain ⟨base, _, added⟩ := added
  have generated : LogsExplain state { state with generatedIds := state.generatedIds + 1 } :=
    .silent rfl rfl
  exact generated.trans (addEmoWithBoardEmo_explained enabled added)

theorem setEmo_explained {actionEmoPointer : EmoPointer} {isTripleAction : Bool} {baseId : Nat}
    {state after : ShopState} {calls : List (Task env.sampler)}
    (performed : setEmo env actionEmoPointer isTripleAction baseId state = .ok (calls, after)) :
    LogsExplain state after := by
  simp only [setEmo] at performed
  split at performed
  · simp only [Result.bind_eq_ok_iff, Result.pure_eq_ok_iff, Prod.mk.injEq] at performed
    obtain ⟨index, _, ⟨additionCalls, _⟩, added, _, rfl⟩ := performed
    exact addEmoCalls_explained enabled added
  · cases performed
    exact .refl _

/-- The removed indexes are those of the moment before the merge. -/
theorem processTriple_explained {newEmoId : Nat} {state after : ShopState}
    {calls : List (Task env.sampler)}
    (processed : processTriple env newEmoId state = .ok (calls, after)) :
    LogsExplain state after := by
  simp only [processTriple, ShopBoard.emosWithIndexes, Result.bind_eq_ok_iff, zipU8_eq_ok_iff]
    at processed
  obtain ⟨⟨target, newEmoIndex⟩, _, _, ⟨_, rfl⟩, processed⟩ := processed
  split at processed
  · simp only [removeTripleEmos_filter, Result.bind_eq_ok_iff, Except.ok.injEq,
      Result.pure_eq_ok_iff, Prod.mk.injEq] at processed
    obtain ⟨_, rfl, triple, _, tripleIndex, _, ⟨additionCalls, _⟩, added, _, rfl⟩ := processed
    refine Explained.trans ?_ (addEmoWithBoardEmo_explained enabled added)
    refine .entry (addLog_logs enabled _ _) ?_
    have inside : ∀ index ∈ (state.board.zipIdx.filter fun (emo, _) =>
        isSameBaseNotTriple target.baseId emo).map Prod.snd, index < state.view.length := by
      intro index member
      obtain ⟨_, found, _⟩ := Positions.mem_filter_zipIdx.mp member
      rw [ShopState.view, ShopBoard.intoBoard_length]
      exact (List.getElem?_eq_some_iff.mp found).1
    simp only [animate]
    rw [if_pos inside, ShopState.view, ShopBoard.removeIndexes_filter]
    simp only [ShopState.view, ShopState.addLog_board]
  · cases processed
    exact .refl _

theorem perform_explained {task : Task env.sampler} {state after : ShopState}
    {calls : List (Task env.sampler)} (performed : perform env task state = .ok (calls, after)) :
    LogsExplain state after := by
  cases task with
  | callPreAbilities rng abilities =>
      exact (callPreAbilities_cases performed).1.writes.explained enabled
  | callAbilityActionAsOneself action actionEmoPointer =>
      simp only [perform, callAbilityActionAsOneself, Result.bind_eq_ok_iff,
        Result.pure_eq_ok_iff, Prod.mk.injEq] at performed
      obtain ⟨_, _, _, rfl⟩ := performed
      exact .refl _
  | callAbilityActionAsAlly action oneselfEmoId allyEmoPointer =>
      obtain ⟨rfl, _⟩ := callAbilityActionAsAlly_cases performed
      exact .refl _
  | callAbilityAction action actionEmoPointer isTripleAction =>
      rcases callAbilityAction_writes performed with ⟨baseId, rfl⟩ | ⟨writes, _⟩
      · exact setEmo_explained enabled performed
      · exact writes.explained enabled
  | callBoardAdditionAbilities newEmoId newEmoTyp isNewEmoTriple =>
      cases performed
      exact .refl _
  | processTriple newEmoId => exact processTriple_explained enabled performed
  | setEmoReturn gottenCoin | processTripleReturn gottenCoin =>
      cases performed
      exact .silent rfl rfl

/-! ## The logs of an action -/

theorem runCalls_explained {fuel : Nat} {calls : Calls env} {after : ShopState}
    (ran : runCalls env fuel calls = pure after) : LogsExplain calls.2 after :=
  Explained.reaches (perform_explained enabled) (CallMachine.run_ok_returns ran)

theorem moveEmo_explained {emoIndex : Nat} {isRight : Bool} {state after : ShopState}
    (moved : moveEmo env emoIndex isRight state = .ok after) : LogsExplain state after := by
  simp only [moveEmo, Result.bind_eq_ok_iff, ensure_eq_ok_iff, Result.pure_eq_ok_iff] at moved
  obtain ⟨_, _, _, _, _, _, board, swapped, rfl⟩ := moved
  refine .entry (addLog_logs enabled state _) ?_
  simp only [ShopBoard.swapEmos, swapElements, ShopState.addLog_board, Result.bind_eq_ok_iff,
    okOr_eq_ok_iff, Result.pure_eq_ok_iff] at swapped
  obtain ⟨left, foundLeft, right, foundRight, rfl⟩ := swapped
  simp only [animate, swapElements, ShopState.view, ShopBoard.getElem?_intoBoard, foundLeft,
    foundRight, ShopBoard.intoBoard_set]
  rfl

theorem sellEmo_explained {fuel emoIndex : Nat} {state after : ShopState}
    (sold : sellEmo env fuel emoIndex state = pure after) : LogsExplain state after := by
  simp only [sellEmo, Fueled.bind_eq_pure_iff, Fueled.of_eq_pure_iff] at sold
  obtain ⟨calls, removed, ran⟩ := sold
  simp only [sellEmoCalls, Result.bind_eq_ok_iff, ensure_eq_ok_iff, okOr_eq_ok_iff,
    Result.pure_eq_ok_iff] at removed
  obtain ⟨_, _, emo, found, rfl⟩ := removed
  refine Explained.trans ?_ (runCalls_explained enabled ran)
  refine .entry (addLog_logs enabled state _) ?_
  have bound : emoIndex < state.view.length := by
    rw [ShopState.view, ShopBoard.intoBoard_length]
    exact (List.getElem?_eq_some_iff.mp found).1
  simp only [animate]
  rw [if_pos bound]
  simp only [ShopState.view, ShopState.addLog_board, ShopBoard.intoBoard_eraseIdx]

/-- The logs that an action emits lead from the board before it to the board
after it. -/
theorem logs_explain (state : ShopState) :
    (∀ fuel seed after, startShop env fuel seed state = pure after → LogsExplain state after) ∧
      (∀ fuel mtcEmoIds baseId isTriple emoIndex after,
        addEmo env fuel mtcEmoIds baseId isTriple emoIndex state = pure after →
          LogsExplain state after) ∧
      (∀ fuel emoIndex after, sellEmo env fuel emoIndex state = pure after →
        LogsExplain state after) ∧
      ∀ emoIndex isRight after, moveEmo env emoIndex isRight state = .ok after →
        LogsExplain state after := by
  refine ⟨fun fuel seed after started => ?_, ?_, ?_, ?_⟩
  · have counted : LogsExplain state { state with gottenCoin := 0 } := .silent rfl rfl
    exact counted.trans (runCalls_explained enabled started)
  · intro fuel mtcEmoIds baseId isTriple emoIndex after added
    simp only [addEmo, Fueled.bind_eq_pure_iff, Fueled.of_eq_pure_iff] at added
    obtain ⟨⟨calls, next⟩, called, ran⟩ := added
    exact (addEmoCalls_explained enabled called).trans (runCalls_explained enabled ran)
  · exact fun fuel emoIndex after => sellEmo_explained enabled
  · exact fun emoIndex isRight after => moveEmo_explained enabled

omit enabled

/-- A third emo of a base is added and merged. -/
theorem logs_explain_triple :
    ∃ (env : Env) (state after : ShopState), addEmo env 9 [] 0 false 1 state = pure after ∧
      (after.logs.map fun log => log matches .triple [0, 1, 2]) = [false, true, false] ∧
      LogsExplain state after := by
  let env : Env :=
    { emoBases := fun id => if id = 0 then some ⟨0, .human, 1, 1, 1, []⟩ else none
      sampler := .first
      isViewLogsEnabled := true }
  let emo (id : Nat) : ShopBoardEmo := ⟨id, [], 0, ⟨1, 1, [], false⟩⟩
  let state : ShopState :=
    { board := [emo 0, emo 1], logs := [], gottenCoin := 0, generatedIds := 2 }
  have executed : (addEmo env 9 [] 0 false 1 state).value?.any fun after =>
      (after.logs.map fun log => log matches .triple [0, 1, 2]) = [false, true, false] := by
    decide +kernel
  obtain ⟨after, added, logged⟩ := Fueled.exists_of_value? executed
  exact ⟨env, state, after, added, of_decide_eq_true logged,
    (logs_explain rfl state).2.1 9 [] 0 false 1 after added⟩

end EmojiBattler.Mtc.Shop
