import EmojiBattler.Game.Leaderboard
import EmojiBattler.Game.Matches

/-! # Players do not disturb each other

A turn reads the bases and what the storage holds of its player, and nothing
that the matches of other players write: the rivals were copied when the match
started, and neither the leaderboard nor the ghost store can refuse a result. -/

namespace EmojiBattler.Game

open EmojiBattler.Emo EmojiBattler.Mtc EmojiBattler.Mtc.Storage
open Ranking
open Function (update)

variable {AccountId : Type} [DecidableEq AccountId]

/-! ## A turn -/

/-- A turn before it is stored. -/
structure TurnOutcome where
  emoBases : Bases
  grade : Nat
  board : Board
  newSeed : Nat
  mutable : PlayerMutable
  finalPlace : Option Nat

namespace Contract

/-- `finish_mtc_shop` up to `update_for_finish_mtc_shop`. -/
def playTurn (chain : Chain AccountId) (context : Context AccountId) (fuel : Nat)
    (playerOperations : List Shop.PlayerOperation) (contract : Contract AccountId) :
    Fueled TurnOutcome := do
  let player := context.caller
  let emoBases ← Fueled.of (okOr contract.emoBases (.panicked "emo_bases none"))
  let env : Env := { emoBases, sampler := chain.sampler }
  let immutable ← Fueled.of
    (okOr (contract.playerMtcImmutable player) (.panicked "player_mtc_immutable none"))
  let mutable ← Fueled.of
    (okOr (contract.playerMtcMutable player) (.panicked "player_mtc_mutable none"))
  let (turn, grade, board) ←
    Fueled.of (getTurnAndPreviousGradeAndBoard mutable.gradeAndBoardHistory)
  let seed ← Fueled.of (okOr (contract.playerSeed player) (.panicked "player_seed none"))
  let (board, grade, upgradeCoin) ← Shop.verifyPlayerOperationsAndUpdate env fuel board grade
    mutable.upgradeCoin playerOperations immutable.pool seed turn 0
  let newSeed ← Fueled.of (getInsecureRandomSeed chain context player "finish_mtc_shop")
  let ghosts := immutable.ghosts.map fun o => (o.map Prod.snd).getD {}
  let (finalPlace, health, ghostStates, _) ← battleAll env fuel board mutable.health
    mutable.ghostStates grade ghosts mutable.battleGhostIndex turn newSeed 0
  return { emoBases, grade, board, newSeed, finalPlace
           mutable := { mutable with upgradeCoin, health, ghostStates } }

theorem finishMtcShop_eq (chain : Chain AccountId) (context : Context AccountId) (fuel : Nat)
    (playerOperations : List Shop.PlayerOperation) (contract : Contract AccountId) :
    contract.finishMtcShop chain context fuel playerOperations = (do
      let outcome ← contract.playTurn chain context fuel playerOperations
      Fueled.of (contract.updateForFinishMtcShop
        { emoBases := outcome.emoBases, sampler := chain.sampler } context context.caller
        outcome.grade outcome.board outcome.newSeed outcome.mutable outcome.finalPlace)) := by
  simp only [finishMtcShop, playTurn, bind_assoc]
  apply bind_congr
  intro emoBases
  apply bind_congr
  intro immutable
  apply bind_congr
  intro mutable
  apply bind_congr
  rintro ⟨turn, grade, board⟩
  apply bind_congr
  intro seed
  apply bind_congr
  rintro ⟨played, playedGrade, upgradeCoin⟩
  apply bind_congr
  intro newSeed
  apply bind_congr
  rintro ⟨finalPlace, health, ghostStates, _⟩
  simp only [pure_bind]

/-- `finish_mtc_shop` ends the match or stores it for the next turn. -/
theorem finishMtcShop_cases {chain : Chain AccountId} {context : Context AccountId} {fuel : Nat}
    {playerOperations : List Shop.PlayerOperation} {before after : Contract AccountId}
    (performed : before.finishMtcShop chain context fuel playerOperations = pure after) :
    ∃ outcome history, before.playTurn chain context fuel playerOperations = pure outcome ∧
      history = outcome.mutable.gradeAndBoardHistory ++
        [{ grade := outcome.grade, board := outcome.board }] ∧
      ((∃ place stored, outcome.finalPlace = some place ∧
        before.finishMtc context context.caller place history = .ok stored ∧
        after = { stored with
          playerSeed := update stored.playerSeed context.caller (some outcome.newSeed) }) ∨
      ∃ index, outcome.finalPlace = none ∧ after = { before with
        playerMtcMutable := update before.playerMtcMutable context.caller
          (some { outcome.mutable with
            gradeAndBoardHistory := history
            upgradeCoin := Shop.decreaseUpgradeCoin outcome.mutable.upgradeCoin
            battleGhostIndex := index })
        playerSeed := update before.playerSeed context.caller (some outcome.newSeed) }) := by
  simp only [finishMtcShop_eq, Fueled.bind_eq_pure_iff, Fueled.of_eq_pure_iff,
    updateForFinishMtcShop, Result.bind_eq_ok_iff, Result.pure_eq_ok_iff] at performed
  obtain ⟨outcome, played, stored, finished, rfl⟩ := performed
  refine ⟨outcome, _, played, rfl, ?_⟩
  cases place : outcome.finalPlace with
  | some finalPlace =>
      rw [place] at finished
      exact .inl ⟨finalPlace, stored, rfl, finished, rfl⟩
  | none =>
      rw [place] at finished
      obtain ⟨index, _, _, rfl⟩ := finishMtcTurn_accounts finished
      exact .inr ⟨index, rfl, rfl⟩

omit [DecidableEq AccountId] in
/-- A turn reads the bases and the entries of its player. -/
theorem playTurn_congr {chain : Chain AccountId} {context otherContext : Context AccountId}
    {contract other : Contract AccountId} (bases : other.emoBases = contract.emoBases)
    (account : other.account context.caller = contract.account context.caller)
    (caller : otherContext.caller = context.caller)
    (seed : getInsecureRandomSeed chain otherContext context.caller "finish_mtc_shop" =
      getInsecureRandomSeed chain context context.caller "finish_mtc_shop")
    (fuel : Nat) (playerOperations : List Shop.PlayerOperation) :
    other.playTurn chain otherContext fuel playerOperations =
      contract.playTurn chain context fuel playerOperations := by
  simp only [Contract.account, Account.mk.injEq] at account
  obtain ⟨_, sameSeed, sameImmutable, sameMutable⟩ := account
  simp only [playTurn, caller, bases, sameSeed, sameImmutable, sameMutable, seed]

/-! ## The leaderboard accepts every result -/

/-- The leaderboard is sorted, and no account is on it twice. -/
structure LeaderboardOrdered (board : List (Nat × AccountId)) : Prop where
  sorted : board.Pairwise Before
  distinct : (board.map Prod.snd).Nodup
  bounded : board.length ≤ leaderboardSize

theorem LeaderboardOrdered.update {board : List (Nat × AccountId)}
    (ordered : LeaderboardOrdered board) (ep : Nat) (account : AccountId) :
    ∃ leaderboardOpt, updateLeaderboard board ep account = .ok leaderboardOpt ∧
      LeaderboardOrdered (leaderboardOpt.getD board) := by
  obtain ⟨leaderboardOpt, updated, entered⟩ := @updateLeaderboard_enters _ _ ep account _
    ordered.sorted ordered.distinct ordered.bounded
  have ranked : Ranked board board := ⟨ordered.sorted, ordered.distinct, fun _ member => member,
    fun call member => ⟨call, member, rfl, Nat.le_refl _⟩⟩
  have next := ranked.enter (ep, account)
  refine ⟨leaderboardOpt, updated, ?_, ?_, ?_⟩
  · rw [entered]
    exact next.sorted.sublist (List.take_sublist _ _)
  · rw [entered]
    exact next.distinct.sublist ((List.take_sublist _ _).map _)
  · rw [entered]
    exact List.length_take_le _ _

omit [DecidableEq AccountId] in
theorem getLeaderboard_setLeaderboard (leaderboardOpt : Option (List (Nat × AccountId)))
    (contract : Contract AccountId) :
    (contract.setLeaderboard leaderboardOpt).getLeaderboard =
      leaderboardOpt.getD contract.getLeaderboard := by
  cases leaderboardOpt <;> rfl

/-- The end of a match keeps the leaderboard in order. -/
theorem finishMtc_leaderboardOrdered {context : Context AccountId} {player : AccountId}
    {place : Nat} {history : List GradeAndBoard} {before after : Contract AccountId}
    (ordered : LeaderboardOrdered before.getLeaderboard)
    (performed : before.finishMtc context player place history = .ok after) :
    LeaderboardOrdered after.getLeaderboard := by
  simp only [finishMtc, Result.bind_eq_ok_iff, Result.pure_eq_ok_iff] at performed
  obtain ⟨_, _, newEp, _, leaderboardOpt, updated, placed, registered, rfl⟩ := performed
  obtain ⟨other, updatedToo, next⟩ := ordered.update newEp player
  cases updated.symm.trans updatedToo
  have kept := congrArg leaderboard (addMatchmakingGhostOfHistory_frame registered)
  have entered := getLeaderboard_setLeaderboard leaderboardOpt before
  simp only [getLeaderboard] at entered next ⊢
  rw [kept, entered]
  exact next

/-- A message keeps the leaderboard in order. -/
theorem execute_leaderboardOrdered {chain : Chain AccountId} {context : Context AccountId}
    {fuel : Nat} {message : Message AccountId} {before after : Contract AccountId}
    (ordered : LeaderboardOrdered before.getLeaderboard)
    (performed : before.execute chain context fuel message = pure after) :
    LeaderboardOrdered after.getLeaderboard := by
  cases execute_executed performed with
  | managed | updated => exact ordered
  | started performed =>
      obtain ⟨_, _, _, rfl⟩ := startMtc_cases performed
      exact ordered
  | finished performed =>
      obtain ⟨outcome, _, _, _, ⟨place, stored, _, finished, rfl⟩ | ⟨_, _, rfl⟩⟩ :=
        finishMtcShop_cases performed
      · have next := finishMtc_leaderboardOrdered ordered finished
        exact next
      · exact ordered

theorem Reachable.leaderboardOrdered {chain : Chain AccountId} {contract : Contract AccountId}
    (reached : contract.Reachable chain) : LeaderboardOrdered contract.getLeaderboard := by
  obtain ⟨deployer, messages⟩ := reached
  induction messages with
  | refl => exact ⟨.nil, .nil, Nat.zero_le _⟩
  | tail _ message ih =>
      obtain ⟨context, fuel, message, performed⟩ := message
      exact execute_leaderboardOrdered ih performed

/-! ## Storing a turn -/

theorem placeMatchmakingGhost_succeeds (player : AccountId) (blockNumber : Nat)
    (info : List (Nat × AccountId)) : Succeeds (placeMatchmakingGhost player blockNumber info) := by
  unfold placeMatchmakingGhost
  split
  · exact succeeds_pure _
  · split
    · exact succeeds_pure _
    · rename_i full
      cases info with
      | nil => simp at full
      | cons entry rest => exact succeeds_pure _

theorem addMatchmakingGhostOfHistory_succeeds (context : Context AccountId) (player : AccountId)
    (ep : Nat) (history : List GradeAndBoard) (last : GradeAndBoard)
    (contract : Contract AccountId) :
    Succeeds (contract.addMatchmakingGhostOfHistory context player ep (history ++ [last])) := by
  refine succeeds_bind_iff.mpr ⟨last, by simp, ?_⟩
  split
  · exact succeeds_pure _
  · obtain ⟨placed, performed⟩ := placeMatchmakingGhost_succeeds player context.blockNumber
      ((contract.matchmakingGhostsInfo (getEpBand ep)).getD [])
    exact succeeds_bind_iff.mpr ⟨placed, performed, succeeds_pure _⟩

/-- What `update_for_finish_mtc_shop` makes of the entries of the player. -/
def storeTurn (sampler : Sampling.Sampler) (outcome : TurnOutcome) (account : Account AccountId) :
    Result (Account AccountId) :=
  match outcome.finalPlace with
  | some place => do
      let oldEp ← okOr account.ep (.panicked "player_ep none")
      let newEp ← calcNewEp place oldEp
      return ⟨some newEp, some outcome.newSeed, none, none⟩
  | none => do
      let mutable ← updatePlayerMtcMutableAfterBattle { emoBases := outcome.emoBases, sampler }
        { outcome.mutable with
          gradeAndBoardHistory := outcome.mutable.gradeAndBoardHistory ++
            [{ grade := outcome.grade, board := outcome.board }] } outcome.newSeed
      return { account with seed := some outcome.newSeed, mutable := some mutable }

theorem updateForFinishMtcShop_account {contract : Contract AccountId}
    (ordered : LeaderboardOrdered contract.getLeaderboard) (sampler : Sampling.Sampler)
    (context : Context AccountId) (player : AccountId) (outcome : TurnOutcome) :
    (fun after => after.account player) <$> contract.updateForFinishMtcShop
        { emoBases := outcome.emoBases, sampler } context player outcome.grade outcome.board
        outcome.newSeed outcome.mutable outcome.finalPlace =
      storeTurn sampler outcome (contract.account player) := by
  unfold updateForFinishMtcShop storeTurn finishMtcOrTurn
  cases outcome.finalPlace with
  | none =>
      simp only [finishMtcTurn]
      cases updatePlayerMtcMutableAfterBattle { emoBases := outcome.emoBases, sampler }
        { outcome.mutable with
          gradeAndBoardHistory := outcome.mutable.gradeAndBoardHistory ++
            [{ grade := outcome.grade, board := outcome.board }] } outcome.newSeed with
      | error _ => rfl
      | ok mutable =>
          apply congrArg Except.ok
          simp only [account, Function.update_self]
  | some place =>
      simp only [finishMtc]
      cases foundEp : contract.playerEp player with
      | none =>
          have noEp : (contract.account player).ep = none := foundEp
          rw [noEp]
          rfl
      | some oldEp =>
          have hasEp : (contract.account player).ep = some oldEp := foundEp
          rw [hasEp]
          cases calculated : calcNewEp place oldEp with
          | error _ => simp only [okOr, calculated, bind, Except.bind, Functor.map, Except.map]
          | ok newEp =>
              obtain ⟨leaderboardOpt, updated, _⟩ := ordered.update newEp player
              obtain ⟨stored, registered⟩ := addMatchmakingGhostOfHistory_succeeds context player
                oldEp outcome.mutable.gradeAndBoardHistory
                { grade := outcome.grade, board := outcome.board }
                { contract.setLeaderboard leaderboardOpt with
                  playerEp :=
                    update (contract.setLeaderboard leaderboardOpt).playerEp player (some newEp) }
              have kept := addMatchmakingGhostOfHistory_account registered player
              simp only [okOr, calculated, updated, registered, bind, Except.bind, Functor.map,
                Except.map, pure, Except.pure]
              simp only [account, Function.update_self, Account.mk.injEq] at kept ⊢
              rw [kept.1]

omit [DecidableEq AccountId] in
theorem map_of (f : α → β) (result : Result α) : f <$> Fueled.of result = Fueled.of (f <$> result) := by
  cases result <;> rfl

theorem finishMtcShop_account {contract : Contract AccountId}
    (ordered : LeaderboardOrdered contract.getLeaderboard) (chain : Chain AccountId)
    (context : Context AccountId) (fuel : Nat) (playerOperations : List Shop.PlayerOperation) :
    (fun after => after.account context.caller) <$>
        contract.finishMtcShop chain context fuel playerOperations = (do
      let outcome ← contract.playTurn chain context fuel playerOperations
      Fueled.of (storeTurn chain.sampler outcome (contract.account context.caller))) := by
  rw [finishMtcShop_eq, map_bind]
  apply bind_congr
  intro outcome
  rw [← updateForFinishMtcShop_account ordered chain.sampler context]
  exact map_of ..

/-! ## The matches of others -/

/-- A successful `start_mtc` or `finish_mtc_shop` by another account. -/
inductive OtherPlays (chain : Chain AccountId) (player : AccountId)
    (before after : Contract AccountId) : Prop
  | starts (context : Context AccountId) (fuel : Nat) (deckEmoBaseIds : List Nat)
      (other : context.caller ≠ player)
      (performed : before.execute chain context fuel (.startMtc deckEmoBaseIds) = pure after)
  | finishes (context : Context AccountId) (fuel : Nat)
      (playerOperations : List Shop.PlayerOperation) (other : context.caller ≠ player)
      (performed :
        before.execute chain context fuel (.finishMtcShop playerOperations) = pure after)

theorem OtherPlays.executes {chain : Chain AccountId} {player : AccountId}
    {before after : Contract AccountId} (plays : OtherPlays chain player before after) :
    Executes chain before after := by
  cases plays with
  | starts context fuel _ _ performed | finishes context fuel _ _ performed =>
      exact ⟨context, fuel, _, performed⟩

theorem finishMtc_emoBases {context : Context AccountId} {player : AccountId} {place : Nat}
    {history : List GradeAndBoard} {before after : Contract AccountId}
    (performed : before.finishMtc context player place history = .ok after) :
    after.emoBases = before.emoBases := by
  simp only [finishMtc, Result.bind_eq_ok_iff, Result.pure_eq_ok_iff] at performed
  obtain ⟨_, _, _, _, leaderboardOpt, _, placed, registered, rfl⟩ := performed
  have bases := congrArg emoBases (addMatchmakingGhostOfHistory_frame registered)
  rw [bases]
  cases leaderboardOpt <;> rfl

theorem OtherPlays.kept {chain : Chain AccountId} {player : AccountId}
    {before after : Contract AccountId} (plays : OtherPlays chain player before after) :
    after.account player = before.account player ∧ after.emoBases = before.emoBases := by
  cases plays with
  | starts context fuel deckEmoBaseIds other performed =>
      have performed := Fueled.of_eq_pure_iff.mp performed
      refine ⟨(startMtc_accounts performed).2 player other.symm, ?_⟩
      obtain ⟨_, _, _, rfl⟩ := startMtc_cases performed
      rfl
  | finishes context fuel playerOperations other performed =>
      obtain ⟨outcome, _, _, _, ⟨place, stored, _, finished, rfl⟩ | ⟨_, _, rfl⟩⟩ :=
        finishMtcShop_cases performed
      · have kept := (finishMtc_accounts finished).2.2 player other.symm
        have bases := finishMtc_emoBases finished
        refine ⟨?_, bases⟩
        rw [← kept]
        simp only [account, Function.update_of_ne other.symm]
      · simp only [account, Function.update_of_ne other.symm, and_self]

theorem OtherPlays.run_kept {chain : Chain AccountId} {player : AccountId}
    {before after : Contract AccountId}
    (plays : Relation.ReflTransGen (OtherPlays chain player) before after) :
    after.account player = before.account player ∧ after.emoBases = before.emoBases := by
  induction plays with
  | refl => exact ⟨rfl, rfl⟩
  | tail _ plays ih => exact ⟨plays.kept.1.trans ih.1, plays.kept.2.trans ih.2⟩

theorem Reachable.others {chain : Chain AccountId} {player : AccountId}
    {before after : Contract AccountId} (reached : before.Reachable chain)
    (plays : Relation.ReflTransGen (OtherPlays chain player) before after) :
    after.Reachable chain := by
  obtain ⟨deployer, messages⟩ := reached
  exact ⟨deployer, messages.trans (plays.lift id fun _ _ step => step.executes)⟩

/-- The matches of others leave the entries of a player alone, and the player's
turn comes to the same outcome and the same entries before and after them. -/
theorem players_isolated {chain : Chain AccountId} {player : AccountId}
    {before after : Contract AccountId} (reached : before.Reachable chain)
    (others : Relation.ReflTransGen (OtherPlays chain player) before after) :
    (after.playerEp player = before.playerEp player ∧
      after.playerSeed player = before.playerSeed player ∧
      after.playerMtcImmutable player = before.playerMtcImmutable player ∧
      after.playerMtcMutable player = before.playerMtcMutable player) ∧
    ∀ (context later : Context AccountId) (fuel : Nat)
      (playerOperations : List Shop.PlayerOperation),
      context.caller = player → later.caller = player →
      getInsecureRandomSeed chain later player "finish_mtc_shop" =
        getInsecureRandomSeed chain context player "finish_mtc_shop" →
      after.playTurn chain later fuel playerOperations =
        before.playTurn chain context fuel playerOperations ∧
      (fun final => final.account player) <$>
          after.execute chain later fuel (.finishMtcShop playerOperations) =
        (fun final => final.account player) <$>
          before.execute chain context fuel (.finishMtcShop playerOperations) := by
  obtain ⟨account, bases⟩ := OtherPlays.run_kept others
  constructor
  · simpa only [Contract.account, Account.mk.injEq] using account
  · rintro context later fuel playerOperations rfl caller seed
    have turn := playTurn_congr bases account caller seed fuel playerOperations
    refine ⟨turn, ?_⟩
    have final := finishMtcShop_account (reached.others others).leaderboardOrdered chain later fuel
      playerOperations
    rw [caller, turn, account] at final
    exact final.trans
      (finishMtcShop_account reached.leaderboardOrdered chain context fuel playerOperations).symm

/-- A player's turn before and after another one starts a match. -/
theorem players_isolated_started :
    ∃ (chain : Chain Nat) (context : Context Nat) (before after final later : Contract Nat),
      (before.playerMtcMutable 1).isNone ∧ (after.playerMtcMutable 1).isSome ∧
      before.execute chain context 20 (.finishMtcShop [.buy 35 0]) = pure final ∧
      after.execute chain context 20 (.finishMtcShop [.buy 35 0]) = pure later ∧
      (final.playerMtcMutable 0).isSome ∧ later.account 0 = final.account 0 := by
  let chain : Chain Nat := { sampler := .first, hashEncoded := fun _ _ time => time }
  let context (caller : Nat) : Context Nat :=
    { caller, callerIsOrigin := true, blockNumber := 1, blockTimestamp := 5 }
  let bases : Bases := fun id => if id < 12 then some ⟨id, .human, id % 6 + 1, 1, 1, []⟩ else none
  let stored : Contract Nat :=
    { admins := [0]
      emoBases := some bases
      deckFixedEmoBaseIds := some [6, 7, 8, 9, 10, 11]
      deckBuiltEmoBaseIds := some [0, 1, 2, 3, 4, 5] }
  have storing : (new 0).execute chain (context 0) 0
      (.updateEmoBases bases [6, 7, 8, 9, 10, 11] [0, 1, 2, 3, 4, 5] true) = pure stored := rfl
  have starting : (stored.execute chain (context 0) 0
      (.startMtc [0, 1, 2, 3, 4, 5])).value?.any fun before =>
        (before.playerMtcMutable 1).isNone &&
        ((before.execute chain (context 1) 0 (.startMtc [0, 1, 2, 3, 4, 5])).value?.any fun after =>
          (after.playerMtcMutable 1).isSome) &&
        (before.execute chain (context 0) 20 (.finishMtcShop [.buy 35 0])).value?.any fun final =>
          (final.playerMtcMutable 0).isSome := by
    decide +kernel
  obtain ⟨before, started, found⟩ := Fueled.exists_of_value? starting
  simp only [Bool.and_eq_true] at found
  obtain ⟨⟨idle, starts⟩, plays⟩ := found
  obtain ⟨after, startedToo, playing⟩ := Fueled.exists_of_value? starts
  obtain ⟨final, played, goesOn⟩ := Fueled.exists_of_value? plays
  have reached : before.Reachable chain :=
    ⟨0, (Relation.ReflTransGen.single ⟨context 0, 0, _, storing⟩).tail ⟨context 0, 0, _, started⟩⟩
  have others : Relation.ReflTransGen (OtherPlays chain 0) before after :=
    .single (.starts (context 1) 0 [0, 1, 2, 3, 4, 5] (by decide) startedToo)
  have same := ((players_isolated reached others).2 (context 0) (context 0) 20 [.buy 35 0] rfl rfl
    rfl).2
  rw [played, map_pure] at same
  obtain ⟨later, playedLater, account⟩ := Fueled.map_eq_pure_iff.mp same
  exact ⟨chain, context 0, before, after, final, later, idle, playing, played, playedLater, goesOn,
    account⟩

end Contract

end EmojiBattler.Game
