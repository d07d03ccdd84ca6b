import EmojiBattler.Battle.Accounting
import EmojiBattler.Shop.WellFormed
import EmojiBattler.Game.Isolation
import EmojiBattler.Game.Matchmaking
import EmojiBattler.Mtc.Rivals
import EmojiBattler.Front.Upgrade

/-! # The boards that the storage holds

A board gets into the storage in one way only: a player ends a turn with it.
The history of a match goes to the ghosts when the match ends, and a ghost is
copied to the matches that choose it. -/

namespace EmojiBattler.Game

open EmojiBattler.Emo EmojiBattler.Mtc EmojiBattler.Mtc.Storage
open EmojiBattler.Mtc.Battle
open Sampling
open Function (update)

/-! ## Histories -/

/-- What a turn starts from. -/
def previousGradeAndBoard (history : List GradeAndBoard) : GradeAndBoard :=
  history.getLast?.getD { grade := 1, board := [] }

/-- Every board is that of an accepted turn on the one before it. -/
inductive PlayedHistory (sampler : Sampler) : List GradeAndBoard → Prop
  | start : PlayedHistory sampler []
  | turn {history : List GradeAndBoard} {entry : GradeAndBoard} {emoBases : Bases}
      (played : PlayedHistory sampler history)
      (accepted : Shop.AcceptedTurn { emoBases, sampler } (previousGradeAndBoard history).board
        entry.board)
      (grade : (previousGradeAndBoard history).grade ≤ entry.grade ∧ entry.grade ≤ 6) :
      PlayedHistory sampler (history ++ [entry])

variable {sampler : Sampler}

@[simp] theorem previousGradeAndBoard_nil :
    previousGradeAndBoard [] = { grade := 1, board := [] } := rfl

@[simp] theorem previousGradeAndBoard_concat (history : List GradeAndBoard)
    (entry : GradeAndBoard) : previousGradeAndBoard (history ++ [entry]) = entry := by
  simp [previousGradeAndBoard]

theorem PlayedHistory.previous {history : List GradeAndBoard}
    (played : PlayedHistory sampler history) :
    Shop.PlayedBoard (previousGradeAndBoard history).board ∧
      Graded (previousGradeAndBoard history).grade := by
  induction played with
  | start => exact ⟨.refl, by decide⟩
  | turn _ accepted grade ih =>
      rw [previousGradeAndBoard_concat]
      obtain ⟨board, low, _⟩ := ih
      exact ⟨board.tail ⟨_, accepted⟩, Nat.le_trans low grade.1, grade.2⟩

theorem PlayedHistory.entries {history : List GradeAndBoard}
    (played : PlayedHistory sampler history) :
    ∀ entry ∈ history, Shop.PlayedBoard entry.board ∧ Graded entry.grade := by
  induction played with
  | start => simp
  | turn before accepted grade ih =>
      intro entry member
      rcases List.mem_append.mp member with old | new
      · exact ih entry old
      · have last := (PlayedHistory.turn before accepted grade).previous
        rw [previousGradeAndBoard_concat] at last
        rw [List.mem_singleton.mp new]
        exact last

/-- The grades never fall. -/
theorem PlayedHistory.grades_sorted {history : List GradeAndBoard}
    (played : PlayedHistory sampler history) :
    (history.map GradeAndBoard.grade).Pairwise (· ≤ ·) ∧
      ∀ entry ∈ history, entry.grade ≤ (previousGradeAndBoard history).grade := by
  induction played with
  | start => simp
  | @turn history entry _ _ _ grade ih =>
      obtain ⟨sorted, below⟩ := ih
      rw [previousGradeAndBoard_concat]
      have rises : ∀ old ∈ history, old.grade ≤ entry.grade := by
        intro old member
        exact Nat.le_trans (below old member) grade.1
      constructor
      · rw [List.map_append, List.pairwise_append]
        simpa using ⟨sorted, rises⟩
      · intro old member
        rcases List.mem_append.mp member with old' | new
        · exact rises old old'
        · rw [List.mem_singleton.mp new]

/-- The ghost of a match that ended with emos on the board. -/
def PlayedGhost (sampler : Sampler) (ghost : Ghost) : Prop :=
  ∃ history, PlayedHistory sampler history ∧ LastBoardFilled history ∧
    ghost = buildGhostFromHistory history

theorem PlayedHistory.graded {history : List GradeAndBoard}
    (played : PlayedHistory sampler history) :
    GradedHistory (buildGhostFromHistory history).history := by
  intro entry member
  obtain ⟨source, listed, rfl⟩ := List.mem_map.mp member
  obtain ⟨board, grade⟩ := played.entries source listed
  have size := board.wellFormed.size
  exact ⟨grade, by simpa [buildGhostBoardFromBoard] using size⟩

theorem PlayedGhost.graded {ghost : Ghost} (played : PlayedGhost sampler ghost) :
    GradedHistory ghost.history := by
  obtain ⟨history, played, _, rfl⟩ := played
  exact played.graded

/-! ## Turns -/

variable {AccountId : Type}

namespace Contract

/-- What `finish_mtc_shop` verifies the operations of a player with. -/
def turnInput (player : AccountId) (fuel : Nat) (playerOperations : List Shop.PlayerOperation)
    (contract : Contract AccountId) : Result Shop.TurnInput := do
  let immutable ← okOr (contract.playerMtcImmutable player) (.panicked "player_mtc_immutable none")
  let mutable ← okOr (contract.playerMtcMutable player) (.panicked "player_mtc_mutable none")
  let (turn, grade, board) ← getTurnAndPreviousGradeAndBoard mutable.gradeAndBoardHistory
  let seed ← okOr (contract.playerSeed player) (.panicked "player_seed none")
  return { board, fuel, grade, seed, turn
           upgradeCoin := mutable.upgradeCoin
           ops := playerOperations
           pool := immutable.pool
           generatedIds := 0 }

/-- The bases have grades, and the shop of a turn generates fewer ids than
there are. -/
def WithinBounds (chain : Chain AccountId) (context : Context AccountId) (fuel : Nat)
    (contract : Contract AccountId) : Message AccountId → Prop
  | .updateEmoBases newBases _ _ _ => GradedBases newBases
  | .finishMtcShop playerOperations => ∀ emoBases input last,
      contract.emoBases = some emoBases →
      contract.turnInput context.caller fuel playerOperations = .ok input →
      input.play { emoBases, sampler := chain.sampler } = pure last →
      last.shop.generatedIds < Shop.idCount
  | _ => True

theorem getTurnAndPreviousGradeAndBoard_previous {history : List GradeAndBoard}
    {turn grade : Nat} {board : Board}
    (taken : getTurnAndPreviousGradeAndBoard history = .ok (turn, grade, board)) :
    previousGradeAndBoard history = { grade, board } := by
  simp only [getTurnAndPreviousGradeAndBoard, Mtc.getTurnAndPreviousGradeAndBoard,
    Result.bind_eq_ok_iff, Result.pure_eq_ok_iff, Prod.mk.injEq] at taken
  obtain ⟨_, ⟨_, _, rfl⟩, _, _, _, rfl, rfl⟩ := taken
  rfl

/-- A turn verifies the operations and lets the new board fight. -/
theorem playTurn_input {chain : Chain AccountId} {context : Context AccountId} {fuel : Nat}
    {playerOperations : List Shop.PlayerOperation} {contract : Contract AccountId}
    {outcome : TurnOutcome}
    (performed : contract.playTurn chain context fuel playerOperations = pure outcome) :
    ∃ immutable mutable input last,
      contract.emoBases = some outcome.emoBases ∧
      contract.playerMtcImmutable context.caller = some immutable ∧
      contract.playerMtcMutable context.caller = some mutable ∧
      contract.turnInput context.caller fuel playerOperations = .ok input ∧
      input.play { emoBases := outcome.emoBases, sampler := chain.sampler } = pure last ∧
      input.generatedIds = 0 ∧
      previousGradeAndBoard mutable.gradeAndBoardHistory =
        { grade := input.grade, board := input.board } ∧
      outcome.grade = last.grade ∧ outcome.board = last.shop.board.intoBoard ∧
      outcome.mutable.gradeAndBoardHistory = mutable.gradeAndBoardHistory := by
  simp only [playTurn, Fueled.bind_eq_pure_iff, Fueled.of_eq_pure_iff, okOr_eq_ok_iff,
    Fueled.pure_eq_pure_iff, Shop.verifyPlayerOperationsAndUpdate] at performed
  obtain ⟨emoBases, foundBases, immutable, foundImmutable, mutable, foundMutable,
    ⟨turn, grade, board⟩, taken, seed, foundSeed, _, ⟨last, played, rfl⟩, newSeed, _, _, _, rfl⟩ :=
    performed
  refine ⟨immutable, mutable, ⟨board, fuel, grade, mutable.upgradeCoin, playerOperations,
    immutable.pool, seed, turn, 0⟩, last, foundBases, foundImmutable, foundMutable, ?_, played,
    rfl, getTurnAndPreviousGradeAndBoard_previous taken, rfl, rfl, rfl⟩
  simp [turnInput, foundImmutable, foundMutable, foundSeed, okOr, taken]

/-- The grade of a turn rises to 6 at most. -/
theorem play_grade {env : Env} {input : Shop.TurnInput} {last : Shop.TurnState}
    (capped : input.grade ≤ 6) (played : input.play env = pure last) :
    input.grade ≤ last.grade ∧ last.grade ≤ 6 := by
  simp only [Shop.TurnInput.play, Shop.playTurn, Shop.startTurn, Fueled.bind_eq_pure_iff,
    Fueled.pure_eq_pure_iff] at played
  obtain ⟨_, _, _, ⟨_, _, _, _, _, _, rfl⟩, looped⟩ := played
  obtain ⟨risen, _, bound⟩ := Front.foldlM_applyOperation_price looped
  simp only at risen bound
  exact ⟨by omega, bound capped⟩

/-- A turn makes the history longer. -/
theorem playTurn_history {chain : Chain AccountId} {context : Context AccountId} {fuel : Nat}
    {playerOperations : List Shop.PlayerOperation} {contract : Contract AccountId}
    {outcome : TurnOutcome}
    (within : contract.WithinBounds chain context fuel (.finishMtcShop playerOperations))
    (histories : ∀ player mutable, contract.playerMtcMutable player = some mutable →
      PlayedHistory chain.sampler mutable.gradeAndBoardHistory)
    (performed : contract.playTurn chain context fuel playerOperations = pure outcome) :
    PlayedHistory chain.sampler (outcome.mutable.gradeAndBoardHistory ++
      [{ grade := outcome.grade, board := outcome.board }]) := by
  obtain ⟨_, mutable, input, last, foundBases, _, foundMutable, inputs, played, fresh, previous,
    grade, board, history⟩ := playTurn_input performed
  have before := histories _ _ foundMutable
  have few := within _ _ _ foundBases inputs played
  have capped := before.previous.2.2
  rw [previous] at capped
  have risen := play_grade capped played
  rw [history, grade, board]
  apply before.turn
  · exact ⟨input, last, by rw [previous], played, by omega, rfl⟩
  · rw [previous]
    exact risen

/-! ## What the messages store -/

/-- Every board in the storage was played. -/
structure BoardsPlayed (sampler : Sampler) (contract : Contract AccountId) : Prop where
  bases : ∀ emoBases, contract.emoBases = some emoBases → GradedBases emoBases
  histories : ∀ player mutable, contract.playerMtcMutable player = some mutable →
    PlayedHistory sampler mutable.gradeAndBoardHistory
  ghosts : ∀ key ghost, contract.matchmakingGhostByIndex key = some ghost →
    PlayedGhost sampler ghost
  rivals : ∀ player immutable, contract.playerMtcImmutable player = some immutable →
    ∀ account ghost, some (account, ghost) ∈ immutable.ghosts → PlayedGhost sampler ghost

theorem boardsPlayed_new (deployer : AccountId) : BoardsPlayed sampler (new deployer) where
  bases _ found := by cases found
  histories _ _ found := by cases found
  ghosts _ _ found := by cases found
  rivals _ _ found := by cases found

variable [DecidableEq AccountId]

omit [DecidableEq AccountId] in
/-- An updated base is a new one or was stored before. -/
theorem checkAndBuildEmoBases_listed {basesOpt : Option Bases} {newBases bases : Bases}
    {fixedBaseIds builtBaseIds : List Nat} {forceBasesUpdate : Bool} {id : Nat} {base : Base}
    (accepted : checkAndBuildEmoBases basesOpt newBases fixedBaseIds builtBaseIds
      forceBasesUpdate = .ok bases) (found : bases id = some base) :
    newBases id = some base ∨ ∃ oldBases, basesOpt = some oldBases ∧ oldBases id = some base := by
  simp only [checkAndBuildEmoBases, Result.bind_eq_ok_iff, Result.pure_eq_ok_iff] at accepted
  obtain ⟨_, _, _, _, rfl⟩ := accepted
  cases forceBasesUpdate with
  | true => exact .inl found
  | false =>
      cases basesOpt with
      | none => exact .inl found
      | some oldBases =>
          change (oldBases id <|> newBases id) = some base at found
          cases old : oldBases id with
          | none =>
              rw [old] at found
              exact .inl found
          | some listed =>
              rw [old] at found
              exact .inr ⟨oldBases, rfl, old.trans found⟩

theorem updateEmoBases_boardsPlayed {context : Context AccountId} {newBases : Bases}
    {fixedBaseIds builtBaseIds : List Nat} {forceBasesUpdate : Bool}
    {before after : Contract AccountId} (played : BoardsPlayed sampler before)
    (graded : GradedBases newBases)
    (performed : before.updateEmoBases context newBases fixedBaseIds builtBaseIds
      forceBasesUpdate = .ok after) : BoardsPlayed sampler after := by
  simp only [updateEmoBases, Result.bind_eq_ok_iff, Result.pure_eq_ok_iff] at performed
  obtain ⟨_, _, bases, accepted, rfl⟩ := performed
  constructor
  case histories => exact played.histories
  case ghosts => exact played.ghosts
  case rivals => exact played.rivals
  case bases =>
      intro _ same id base found
      cases same
      rcases checkAndBuildEmoBases_listed accepted found with new | ⟨oldBases, stored, old⟩
      · exact graded id base new
      · exact played.bases oldBases stored id base old

theorem startMtc_boardsPlayed {chain : Chain AccountId} {context : Context AccountId}
    {deckEmoBaseIds : List Nat} {before after : Contract AccountId}
    (played : BoardsPlayed sampler before)
    (performed : before.startMtc chain context deckEmoBaseIds = .ok after) :
    BoardsPlayed sampler after := by
  simp only [startMtc, createOrUpdatePlayerEp_account, Result.bind_eq_ok_iff,
    Result.pure_eq_ok_iff] at performed
  obtain ⟨_, _, _, _, _, _, _, _, _, _, ghosts, chosen, rfl⟩ := performed
  constructor
  case bases => exact played.bases
  case ghosts => exact played.ghosts
  case histories =>
      intro player mutable found
      simp only [Function.update_apply] at found
      split at found
      · cases found
        exact .start
      · exact played.histories player mutable found
  case rivals =>
      intro player immutable found account ghost member
      simp only [Function.update_apply] at found
      split at found
      · cases found
        obtain ⟨key, read⟩ := chooseGhosts_read chosen member
        exact played.ghosts key ghost read
      · exact played.rivals player immutable found account ghost member

theorem finishMtc_boardsPlayed {context : Context AccountId} {player : AccountId} {place : Nat}
    {history : List GradeAndBoard} {before after : Contract AccountId}
    (played : BoardsPlayed sampler before) (finished : PlayedHistory sampler history)
    (performed : before.finishMtc context player place history = .ok after) :
    BoardsPlayed sampler after := by
  have sameBases := finishMtc_emoBases performed
  obtain ⟨noImmutable, noMutable, kept⟩ := finishMtc_accounts performed
  simp only [Contract.account] at noImmutable noMutable
  constructor
  case bases =>
      rw [sameBases]
      exact played.bases
  case histories =>
      intro other mutable found
      by_cases own : other = player
      · subst own
        rw [noMutable] at found
        cases found
      · have same := congrArg Account.mutable (kept other own)
        exact played.histories other mutable (same.symm.trans found)
  case rivals =>
      intro other immutable found
      by_cases own : other = player
      · subst own
        rw [noImmutable] at found
        cases found
      · have same := congrArg Account.immutable (kept other own)
        exact played.rivals other immutable (same.symm.trans found)
  case ghosts =>
      intro key ghost found
      have stored := performed
      simp only [finishMtc, Result.bind_eq_ok_iff, okOr_eq_ok_iff] at stored
      obtain ⟨ep, foundEp, _⟩ := stored
      obtain ⟨_, registers, same⟩ := finishMtc_registers foundEp performed
      by_cases filled : LastBoardFilled history
      · obtain ⟨info, index, registered⟩ := registers filled
        rw [registered.ghost, Function.update_apply] at found
        split at found
        · cases found
          exact ⟨history, finished, filled, rfl⟩
        · exact played.ghosts key ghost found
      · rw [(same filled).ghost] at found
        exact played.ghosts key ghost found

theorem finishMtcShop_boardsPlayed {chain : Chain AccountId} {context : Context AccountId}
    {fuel : Nat} {playerOperations : List Shop.PlayerOperation} {before after : Contract AccountId}
    (played : BoardsPlayed chain.sampler before)
    (within : before.WithinBounds chain context fuel (.finishMtcShop playerOperations))
    (performed : before.finishMtcShop chain context fuel playerOperations = pure after) :
    BoardsPlayed chain.sampler after := by
  obtain ⟨outcome, _, turn, rfl, ending⟩ := finishMtcShop_cases performed
  have history := playTurn_history within played.histories turn
  obtain ⟨place, stored, _, finished, rfl⟩ | ⟨index, _, rfl⟩ := ending
  · have next := finishMtc_boardsPlayed played history finished
    exact ⟨next.bases, next.histories, next.ghosts, next.rivals⟩
  · constructor
    case bases => exact played.bases
    case ghosts => exact played.ghosts
    case rivals => exact played.rivals
    case histories =>
        intro player mutable found
        simp only [Function.update_apply] at found
        split at found
        · cases found
          exact history
        · exact played.histories player mutable found

/-! ## Runs -/

/-- One successful message within the bounds. -/
def ExecutesWithin (chain : Chain AccountId) (before after : Contract AccountId) : Prop :=
  ∃ context fuel message, before.WithinBounds chain context fuel message ∧
    before.execute chain context fuel message = pure after

theorem ExecutesWithin.boardsPlayed {chain : Chain AccountId} {before after : Contract AccountId}
    (executes : ExecutesWithin chain before after) (played : BoardsPlayed chain.sampler before) :
    BoardsPlayed chain.sampler after := by
  obtain ⟨context, fuel, message, within, performed⟩ := executes
  cases execute_executed performed with
  | managed => exact ⟨played.bases, played.histories, played.ghosts, played.rivals⟩
  | updated accepted => exact updateEmoBases_boardsPlayed played within accepted
  | started performed => exact startMtc_boardsPlayed played performed
  | finished performed => exact finishMtcShop_boardsPlayed played within performed

theorem ExecutesWithin.run {chain : Chain AccountId} {deployer : AccountId}
    {contract : Contract AccountId}
    (messages : Relation.ReflTransGen (ExecutesWithin chain) (new deployer) contract) :
    contract.Reachable chain ∧ BoardsPlayed chain.sampler contract := by
  induction messages with
  | refl => exact ⟨⟨deployer, .refl⟩, boardsPlayed_new deployer⟩
  | tail _ executes ih =>
      obtain ⟨⟨first, messages⟩, played⟩ := ih
      have next := executes.boardsPlayed played
      obtain ⟨context, fuel, message, _, performed⟩ := executes
      exact ⟨⟨first, messages.tail ⟨context, fuel, message, performed⟩⟩, next⟩

omit [DecidableEq AccountId] in
/-- The new board of a turn and the rivals can fight. -/
theorem playTurn_turnReady {chain : Chain AccountId} {context : Context AccountId} {fuel : Nat}
    {playerOperations : List Shop.PlayerOperation} {contract : Contract AccountId}
    {outcome : TurnOutcome} (played : BoardsPlayed chain.sampler contract)
    (states : ∀ accountId, AccountState (contract.account accountId))
    (within : contract.WithinBounds chain context fuel (.finishMtcShop playerOperations))
    (performed : contract.playTurn chain context fuel playerOperations = pure outcome) :
    ∃ immutable mutable, contract.playerMtcImmutable context.caller = some immutable ∧
      contract.playerMtcMutable context.caller = some mutable ∧
      TurnReady { emoBases := outcome.emoBases, sampler := chain.sampler } outcome.board
        mutable.health mutable.ghostStates outcome.grade
        (immutable.ghosts.map fun o => (o.map Prod.snd).getD {}) mutable.battleGhostIndex := by
  have longer := (playTurn_history within played.histories performed).previous
  rw [previousGradeAndBoard_concat] at longer
  obtain ⟨board, grade⟩ := longer
  obtain ⟨immutable, mutable, _, _, foundBases, foundImmutable, foundMutable, _⟩ :=
    playTurn_input performed
  have ready : MatchReady immutable mutable :=
    (states context.caller).ready foundImmutable foundMutable
  refine ⟨immutable, mutable, foundImmutable, foundMutable, ?_⟩
  constructor
  case bases => exact played.bases _ foundBases
  case capacity => exact board.wellFormed.size
  case alive => exact ready.alive
  case threeStates => exact ready.states
  case activeAlive => exact fun _ member => ready.within _ member
  case graded => exact grade
  case threeGhosts => rw [List.length_map, ready.ghosts]
  case battled => exact ready.opponent
  case histories =>
      intro ghost member
      obtain ⟨chosen, listed, rfl⟩ := List.mem_map.mp member
      cases chosen with
      | none => exact List.forall_mem_nil _
      | some rival => exact (played.rivals _ _ foundImmutable rival.1 rival.2 listed).graded

/-- In every run each match history is a chain of accepted turns with boards
that are well formed and grades that never fall, every ghost and every rival is
the history of such a match, and the next turn of a match can fight. -/
theorem stored_boards_played {chain : Chain AccountId} {deployer : AccountId}
    {contract : Contract AccountId}
    (messages : Relation.ReflTransGen (ExecutesWithin chain) (new deployer) contract) :
    (∀ player mutable, contract.playerMtcMutable player = some mutable →
      PlayedHistory chain.sampler mutable.gradeAndBoardHistory ∧
        (∀ entry ∈ mutable.gradeAndBoardHistory,
          Shop.WellFormed entry.board ∧ Graded entry.grade) ∧
        (mutable.gradeAndBoardHistory.map GradeAndBoard.grade).Pairwise (· ≤ ·)) ∧
    (∀ key ghost, contract.matchmakingGhostByIndex key = some ghost →
      PlayedGhost chain.sampler ghost) ∧
    (∀ player immutable, contract.playerMtcImmutable player = some immutable →
      ∀ account ghost, some (account, ghost) ∈ immutable.ghosts →
        PlayedGhost chain.sampler ghost) ∧
    ∀ context fuel playerOperations outcome,
      contract.WithinBounds chain context fuel (.finishMtcShop playerOperations) →
      contract.playTurn chain context fuel playerOperations = pure outcome →
      ∃ immutable mutable, contract.playerMtcImmutable context.caller = some immutable ∧
        contract.playerMtcMutable context.caller = some mutable ∧
        TurnReady { emoBases := outcome.emoBases, sampler := chain.sampler } outcome.board
          mutable.health mutable.ghostStates outcome.grade
          (immutable.ghosts.map fun o => (o.map Prod.snd).getD {}) mutable.battleGhostIndex := by
  obtain ⟨reached, played⟩ := ExecutesWithin.run messages
  refine ⟨fun player mutable found => ?_, played.ghosts, played.rivals,
    fun context fuel playerOperations outcome within performed => ?_⟩
  · have history := played.histories player mutable found
    refine ⟨history, fun entry member => ?_, history.grades_sorted.1⟩
    obtain ⟨board, grade⟩ := history.entries entry member
    exact ⟨board.wellFormed, grade⟩
  · exact playTurn_turnReady played reached.accounts within performed

/-- A player buys an emo in the first turn of a match. -/
theorem stored_boards_played_first :
    ∃ (chain : Chain Nat) (contract : Contract Nat) (mutable : PlayerMutable),
      contract.playerMtcMutable 0 = some mutable ∧
      mutable.gradeAndBoardHistory.map (fun entry => entry.board.map BoardEmo.mtcEmoIds) =
        [[[35]]] ∧
      PlayedHistory chain.sampler mutable.gradeAndBoardHistory ∧
      ∀ entry ∈ mutable.gradeAndBoardHistory, Shop.WellFormed entry.board ∧ Graded entry.grade := by
  let chain : Chain Nat := { sampler := .first, hashEncoded := fun _ _ time => time }
  let context : Context Nat := ⟨0, true, 1, 5⟩
  let bases : Bases := fun id => if id < 12 then some ⟨id, .human, id % 6 + 1, 1, 1, []⟩ else none
  let env : Env := { emoBases := bases, sampler := .first }
  let stored : Contract Nat :=
    { admins := [0]
      emoBases := some bases
      deckFixedEmoBaseIds := some [6, 7, 8, 9, 10, 11]
      deckBuiltEmoBaseIds := some [0, 1, 2, 3, 4, 5] }
  have graded : GradedBases bases := by
    intro id base found
    dsimp only [bases] at found
    split at found
    · cases found
      simp only
      omega
    · cases found
  have storing : (new 0).execute chain context 0
      (.updateEmoBases bases [6, 7, 8, 9, 10, 11] [0, 1, 2, 3, 4, 5] true) = pure stored := rfl
  have running : (stored.execute chain context 0 (.startMtc [0, 1, 2, 3, 4, 5])).value?.any
      fun contract =>
        ((contract.turnInput 0 20 [.buy 35 0]).toOption.any fun input =>
          (input.play env).value?.any fun last => last.shop.generatedIds < Shop.idCount) &&
        (contract.execute chain context 20 (.finishMtcShop [.buy 35 0])).value?.any fun after =>
          (after.playerMtcMutable 0).any fun mutable =>
            mutable.gradeAndBoardHistory.map (fun entry => entry.board.map BoardEmo.mtcEmoIds) =
              [[[35]]] := by
    decide +kernel
  obtain ⟨contract, started, found⟩ := Fueled.exists_of_value? running
  rw [Bool.and_eq_true] at found
  obtain ⟨few, found⟩ := found
  obtain ⟨after, finished, found⟩ := Fueled.exists_of_value? found
  obtain ⟨mutable, foundMutable, bought⟩ := (Option.any_eq_true _ _).mp found
  have sameBases : contract.emoBases = some bases := by
    have performed := Fueled.of_eq_pure_iff.mp started
    obtain ⟨_, _, _, rfl⟩ := startMtc_cases performed
    rfl
  have first : ExecutesWithin chain (new 0) stored :=
    ⟨context, 0, .updateEmoBases bases [6, 7, 8, 9, 10, 11] [0, 1, 2, 3, 4, 5] true, graded,
      storing⟩
  have second : ExecutesWithin chain stored contract :=
    ⟨context, 0, .startMtc [0, 1, 2, 3, 4, 5], trivial, started⟩
  have third : ExecutesWithin chain contract after := by
    refine ⟨context, 20, .finishMtcShop [.buy 35 0], ?_, finished⟩
    intro emoBases input last foundBases inputs played
    cases sameBases.symm.trans foundBases
    rw [inputs] at few
    obtain ⟨other, same, bound⟩ := Fueled.exists_of_value? few
    cases played.symm.trans same
    exact of_decide_eq_true bound
  have messages : Relation.ReflTransGen (ExecutesWithin chain) (new 0) after :=
    ((Relation.ReflTransGen.single first).tail second).tail third
  obtain ⟨history, entries, _⟩ := (stored_boards_played messages).1 0 mutable foundMutable
  exact ⟨chain, after, mutable, foundMutable, of_decide_eq_true bought, history, entries⟩

end Contract

end EmojiBattler.Game
