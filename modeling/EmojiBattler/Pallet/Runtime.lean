import EmojiBattler.Pallet.Matches

/-! # The game and the first airdrop

The runtime runs both pallets.  The airdrop reads of the game who is eligible,
and the game never takes that back. -/

namespace EmojiBattler.Pallet

open EmojiBattler.Emo EmojiBattler.Mtc
open Function (update)

/-! ## The airdrop -/

inductive AirdropError where
  | airdropCountMax
  | alreadyClaimed
  | playerNotEligible
deriving DecidableEq

structure Airdrop (AccountId : Type) where
  playerAirdropDestinationKusamaAccountId : AccountId → Option AccountId := fun _ => none
  playerAirdropDestinationKusamaAccountIdCount : Option Nat := none

variable {AccountId : Type} [DecidableEq AccountId]

/-- `claim` of the pallet `first-airdrop`. -/
def Airdrop.claim (game : Storage AccountId) (playerAccountId kusamaAccountId : AccountId)
    (airdrop : Airdrop AccountId) : Except AirdropError (Airdrop AccountId) :=
  let airdroppedCount := airdrop.playerAirdropDestinationKusamaAccountIdCount.getD 0
  if ¬ airdroppedCount < 500 then .error .airdropCountMax
  else if (airdrop.playerAirdropDestinationKusamaAccountId playerAccountId).isSome then
    .error .alreadyClaimed
  else if ¬ (game.playerFirstAirdropEligible playerAccountId).getD false then
    .error .playerNotEligible
  else
    .ok {
      playerAirdropDestinationKusamaAccountId :=
        update airdrop.playerAirdropDestinationKusamaAccountId playerAccountId
          (some kusamaAccountId)
      playerAirdropDestinationKusamaAccountIdCount := some (airdroppedCount + 1) }

/-! ## The runtime -/

inductive UpdateError where
  | badOrigin
  | invalidEmoBases
deriving DecidableEq

/-- `update_emo_bases` -/
def Storage.updateEmoBases (isRoot : Bool) (newBases : Bases) (fixedBaseIds builtBaseIds : List Nat)
    (forceBasesUpdate : Bool) (storage : Storage AccountId) :
    Except UpdateError (Storage AccountId) := do
  if ¬ isRoot then .error .badOrigin
  else
    let bases ← (checkAndBuildEmoBases storage.emoBases newBases fixedBaseIds builtBaseIds
      forceBasesUpdate).mapError fun _ => UpdateError.invalidEmoBases
    return { storage with
      emoBases := some bases
      deckFixedEmoBaseIds := some fixedBaseIds
      deckBuiltEmoBaseIds := some builtBaseIds }

structure Runtime (AccountId : Type) where
  game : Storage AccountId := {}
  airdrop : Airdrop AccountId := {}

inductive RuntimeCall (AccountId : Type) where
  | game (transaction : Transaction AccountId)
  | updateEmoBases (isRoot : Bool) (newBases : Bases) (fixedBaseIds builtBaseIds : List Nat)
      (forceBasesUpdate : Bool)
  | claim (playerAccountId kusamaAccountId : AccountId)

section Execution

variable (calculateNewEp : Nat → Nat → List Nat → Nat)

/-- A call that fails leaves the storage. -/
def Runtime.execute (runtime : Runtime AccountId) : RuntimeCall AccountId → Runtime AccountId
  | .game transaction =>
      { runtime with game := Pallet.execute calculateNewEp runtime.game transaction }
  | .updateEmoBases isRoot newBases fixedBaseIds builtBaseIds forceBasesUpdate =>
      match runtime.game.updateEmoBases isRoot newBases fixedBaseIds builtBaseIds
          forceBasesUpdate with
      | .ok game => { runtime with game }
      | .error _ => runtime
  | .claim playerAccountId kusamaAccountId =>
      match runtime.airdrop.claim runtime.game playerAccountId kusamaAccountId with
      | .ok airdrop => { runtime with airdrop }
      | .error _ => runtime

/-- The chain after the calls. -/
def Runtime.after (calls : List (RuntimeCall AccountId)) : Runtime AccountId :=
  calls.foldl (Runtime.execute calculateNewEp) {}

end Execution

variable {calculateNewEp : Nat → Nat → List Nat → Nat}

/-- What a call makes of the runtime. -/
inductive Runtime.Executed (calculateNewEp : Nat → Nat → List Nat → Nat)
    (before : Runtime AccountId) : RuntimeCall AccountId → Runtime AccountId → Prop
  | game (transaction : Transaction AccountId) :
      Executed calculateNewEp before (.game transaction)
        { before with game := Pallet.execute calculateNewEp before.game transaction }
  | updated {call : RuntimeCall AccountId} (bases : Bases) (fixedBaseIds builtBaseIds : List Nat)
      (other : ∀ transaction, call ≠ .game transaction) :
      Executed calculateNewEp before call { before with
        game := { before.game with
          emoBases := some bases
          deckFixedEmoBaseIds := some fixedBaseIds
          deckBuiltEmoBaseIds := some builtBaseIds } }
  | claimed {playerAccountId kusamaAccountId : AccountId} {airdrop : Airdrop AccountId}
      (performed : before.airdrop.claim before.game playerAccountId kusamaAccountId = .ok airdrop) :
      Executed calculateNewEp before (.claim playerAccountId kusamaAccountId)
        { before with airdrop }
  | failed {call : RuntimeCall AccountId} (other : ∀ transaction, call ≠ .game transaction) :
      Executed calculateNewEp before call before

theorem Runtime.execute_executed (runtime : Runtime AccountId) (call : RuntimeCall AccountId) :
    Runtime.Executed calculateNewEp runtime call (runtime.execute calculateNewEp call) := by
  cases call with
  | game transaction => exact .game transaction
  | updateEmoBases isRoot newBases fixedBaseIds builtBaseIds forceBasesUpdate =>
      simp only [Runtime.execute]
      split
      · rename_i performed
        unfold Storage.updateEmoBases at performed
        split at performed
        · cases performed
        · simp only [Result.bind_eq_ok_iff, Result.pure_eq_ok_iff] at performed
          obtain ⟨bases, _, rfl⟩ := performed
          exact .updated bases fixedBaseIds builtBaseIds (by simp)
      · exact .failed (by simp)
  | claim playerAccountId kusamaAccountId =>
      simp only [Runtime.execute]
      split
      · rename_i performed
        exact .claimed performed
      · exact .failed (by simp)

theorem Runtime.after_snoc (done : List (RuntimeCall AccountId)) (call : RuntimeCall AccountId) :
    Runtime.after calculateNewEp (done ++ [call]) =
      (Runtime.after calculateNewEp done).execute calculateNewEp call := by
  simp [Runtime.after]

/-- What holds at genesis and survives every call holds after any calls. -/
theorem Runtime.after_invariant {P : List (RuntimeCall AccountId) → Prop}
    (calls : List (RuntimeCall AccountId)) (initial : P [])
    (preserved : ∀ {done call}, P done →
      Runtime.Executed calculateNewEp (Runtime.after calculateNewEp done) call
        (Runtime.after calculateNewEp (done ++ [call])) → P (done ++ [call])) : P calls := by
  induction calls using List.reverseRecOn with
  | nil => exact initial
  | append_singleton done call ih =>
      apply preserved ih
      rw [Runtime.after_snoc]
      exact Runtime.execute_executed _ _

/-! ## Matches -/

theorem Runtime.Executed.matchesWhole {before after : Runtime AccountId}
    {call : RuntimeCall AccountId} (executed : Runtime.Executed calculateNewEp before call after)
    (whole : before.game.MatchesWhole) : after.game.MatchesWhole := by
  cases executed with
  | game => exact execute_matchesWhole whole
  | updated => exact ⟨whole.records, fun _ _ => rfl⟩
  | claimed | failed => exact whole

theorem Runtime.matchesWhole (calls : List (RuntimeCall AccountId)) :
    (Runtime.after calculateNewEp calls).game.MatchesWhole := by
  refine @Runtime.after_invariant _ _ calculateNewEp
    (fun done => (Runtime.after calculateNewEp done).game.MatchesWhole) calls ?_
    fun whole executed => executed.matchesWhole whole
  constructor
  · exact fun _ => .idle none none
  · intro _ playing
    cases playing

/-- After any calls a player has the whole of a match or nothing of it, and no
call fails because a part of a running match is missing. -/
theorem runtime_matches_whole (calls : List (RuntimeCall AccountId)) :
    (∀ player, RecordState ((Runtime.after calculateNewEp calls).game.record player)) ∧
      ∀ transaction error,
        (dispatch calculateNewEp (Runtime.after calculateNewEp calls).game transaction).FailsWith
          error →
        ErrorExplained (Runtime.after calculateNewEp calls).game error transaction.extrinsic := by
  have whole : (Runtime.after calculateNewEp calls).game.MatchesWhole := Runtime.matchesWhole calls
  exact ⟨whole.records, fun _ _ failed => dispatch_fails whole failed⟩

/-- A player of a running match sends an operation that the shop rejects. -/
theorem runtime_matches_whole_rejected :
    ∃ (calls : List (RuntimeCall Nat)) (transaction : Transaction Nat),
      (dispatch keptEp (Runtime.after keptEp calls).game transaction).FailsWith
        .invalidShopPlayerOperations ∧
      ErrorExplained (Runtime.after keptEp calls).game .invalidShopPlayerOperations
        transaction.extrinsic := by
  let bases : Bases := fun id => if id < 12 then some ⟨id, .human, id % 6 + 1, 1, 1, []⟩ else none
  let surroundings : Surroundings Nat := ⟨outside, .first, 20, 0, 0⟩
  let calls : List (RuntimeCall Nat) :=
    [.updateEmoBases true bases [6, 7, 8, 9, 10, 11] [0, 1, 2, 3, 4, 5] false,
      .game ⟨surroundings, .start (.startMtc 0 1 [0, 1, 2, 3, 4, 5])⟩]
  let transaction : Transaction Nat := ⟨surroundings, .finishMtcShop 1 [.sell 0]⟩
  have failed : (dispatch keptEp (Runtime.after keptEp calls).game transaction).FailsWith
      .invalidShopPlayerOperations := Dispatched.failsWith_of_error? (by decide +kernel)
  exact ⟨calls, transaction, failed, (runtime_matches_whole calls).2 transaction _ failed⟩

/-! ## Eligible players -/

/-- A turn before it is stored. -/
structure PlayedTurn where
  emoBases : Bases
  grade : Nat
  board : Board
  newSeed : Nat
  upgradeCoin : Option Nat
  battleGhostIndex : Nat
  health : Nat
  ghostStates : List GhostState
  ghostEps : List Nat
  gradeAndBoardHistory : List GradeAndBoard
  finalPlace : Option Nat

namespace Storage

/-- `_finish_mtc_shop` up to `_finish`. -/
def playTurn (surroundings : Surroundings AccountId) (accountId : AccountId)
    (playerOperations : List Shop.PlayerOperation) (storage : Storage AccountId) :
    Dispatched PlayedTurn := do
  let emoBases ← .get storage.emoBases .emoBasesNone
  let gradeAndBoardHistory ← .get (storage.playerGradeAndBoardHistory accountId)
    .playerGradeAndBoardHistoryNone
  let upgradeCoin := storage.playerUpgradeCoin accountId
  let (turn, gradeAndBoard) ← .mapErr
    (Fueled.of (getTurnAndPreviousGradeAndBoard gradeAndBoardHistory)) .panicked
  let (board, grade, upgradeCoin) ← storage.verifyPlayerOperationsAndUpdate surroundings accountId
    gradeAndBoard.board gradeAndBoard.grade upgradeCoin playerOperations turn emoBases
  let health ← .get (storage.playerHealth accountId) .playerHealthNone
  let battleGhostIndex ← .get (storage.playerBattleGhostIndex accountId)
    .playerBattleGhostIndexNone
  let ghostStates ← .get (storage.playerGhostStates accountId) .playerGhostStatesNone
  let newSeed := surroundings.outside.getRandomSeed "finish_mtc_shop"
  let playerGhosts ← .get (storage.playerGhosts accountId) .playerGhostsNone
  let (ghosts, ghostEps) := separatePlayerGhosts playerGhosts
  let (finalPlace, health, ghostStates) ← battle surroundings board health ghostStates grade
    ghosts battleGhostIndex turn newSeed emoBases
  return { emoBases, grade, board, newSeed, upgradeCoin, battleGhostIndex, health, ghostStates,
           ghostEps, gradeAndBoardHistory, finalPlace }

/-- A turn is played and then stored. -/
theorem finishMtcShopOf_played {surroundings : Surroundings AccountId} {accountId : AccountId}
    {playerOperations : List Shop.PlayerOperation} {before after : Storage AccountId}
    (performed : before.finishMtcShopOf calculateNewEp surroundings accountId playerOperations =
      pure after) :
    ∃ turn, before.playTurn surroundings accountId playerOperations = pure turn ∧
      before.finish calculateNewEp surroundings accountId turn.grade turn.board turn.newSeed
        turn.upgradeCoin turn.battleGhostIndex turn.health turn.ghostStates turn.ghostEps
        turn.gradeAndBoardHistory turn.finalPlace turn.emoBases = .ok after := by
  simp only [finishMtcShopOf, bounded_bind_eq_pure_iff, Dispatched.of_eq_pure_iff] at performed
  obtain ⟨emoBases, bases, history, foundHistory, taken, turn, ⟨board, grade, upgradeCoin⟩, verified,
    health, foundHealth, index, foundIndex, states, foundStates, ghosts, foundGhosts,
    ⟨finalPlace, left, statesLeft⟩, battled, finished⟩ := performed
  refine ⟨⟨emoBases, grade, board, _, upgradeCoin, index, left, statesLeft, _, history, finalPlace⟩,
    ?_, finished⟩
  simp only [playTurn, bounded_bind_eq_pure_iff]
  exact ⟨emoBases, bases, history, foundHistory, taken, turn, _, verified, health, foundHealth,
    index, foundIndex, states, foundStates, ghosts, foundGhosts, _, battled, rfl⟩

/-- Only an end of a match on one of the first three places makes its player
eligible. -/
theorem finish_eligible {surroundings : Surroundings AccountId} {accountId : AccountId}
    {grade newSeed battleGhostIndex health : Nat} {board : Board} {upgradeCoin : Option Nat}
    {ghostStates : List GhostState} {ghostEps : List Nat} {history : List GradeAndBoard}
    {finalPlace : Option Nat} {emoBases : Emo.Bases} {before after : Storage AccountId}
    (performed : before.finish calculateNewEp surroundings accountId grade board newSeed
      upgradeCoin battleGhostIndex health ghostStates ghostEps history finalPlace emoBases =
      .ok after) :
    after.playerFirstAirdropEligible =
      if finalPlace.any fun place => place < 4 then
        update before.playerFirstAirdropEligible accountId (some true)
      else before.playerFirstAirdropEligible := by
  cases finalPlace with
  | some place =>
      simp only [finish, finishMtc, updateEp, Result.bind_eq_ok_iff, Result.pure_eq_ok_iff]
        at performed
      obtain ⟨_, ⟨_, ⟨_, _, rfl⟩, rfl⟩, rfl⟩ := performed
      simp only [cleanupFinished, Option.any_some, decide_eq_true_eq]
      split <;> rfl
  | none =>
      simp only [finish, Result.bind_eq_ok_iff, Result.pure_eq_ok_iff] at performed
      obtain ⟨finished, ended, rfl⟩ := performed
      unfold finishBattle at ended
      split at ended
      · cases ended
      · simp only [Result.bind_eq_ok_iff, Result.pure_eq_ok_iff] at ended
        obtain ⟨_, _, rfl⟩ := ended
        rfl

theorem startMtcOf_eligible {outside : Outside AccountId} {main session : AccountId}
    {deckEmoBaseIds : List Nat} {before after : Storage AccountId}
    (performed : before.startMtcOf outside main session deckEmoBaseIds = .ok after) :
    after.playerFirstAirdropEligible = before.playerFirstAirdropEligible := by
  simp only [startMtcOf, Result.bind_eq_ok_iff, Result.pure_eq_ok_iff] at performed
  obtain ⟨penalized, penalty, _, _, _, _, _, _, _, _, rfl⟩ := performed
  unfold penalizeUnfinished at penalty
  split at penalty
  · simp only [Result.bind_eq_ok_iff, Result.pure_eq_ok_iff] at penalty
    obtain ⟨_, _, rfl⟩ := penalty
    rfl
  · cases penalty
    rfl

end Storage

/-- The transaction ends the player's match on one of the first three places. -/
def Earns (calculateNewEp : Nat → Nat → List Nat → Nat) (storage : Storage AccountId)
    (player : AccountId) (transaction : Transaction AccountId) : Prop :=
  ∃ session playerOperations turn after,
    transaction.extrinsic = .finishMtcShop session playerOperations ∧
    storage.playerSessionToMain session = some player ∧
    storage.playTurn transaction.surroundings player playerOperations = pure turn ∧
    (turn.finalPlace.any fun place => place < 4) = true ∧
    dispatch calculateNewEp storage transaction = pure after

/-- Who becomes eligible by a transaction. -/
theorem execute_eligible_iff {transaction : Transaction AccountId} {storage : Storage AccountId}
    {player : AccountId} :
    (execute calculateNewEp storage transaction).playerFirstAirdropEligible player = some true ↔
      storage.playerFirstAirdropEligible player = some true ∨
        Earns calculateNewEp storage player transaction := by
  by_cases succeeds : ∃ after, dispatch calculateNewEp storage transaction = pure after
  · obtain ⟨after, dispatched⟩ := succeeds
    rw [execute_of_dispatch dispatched]
    obtain ⟨surroundings, extrinsic⟩ := transaction
    cases extrinsic with
    | start call =>
        have same : after.playerFirstAirdropEligible = storage.playerFirstAirdropEligible := by
          simp only [dispatch, Dispatched.of_eq_pure_iff] at dispatched
          cases call with
          | startMtc main session deckEmoBaseIds => exact Storage.startMtcOf_eligible dispatched
          | startMtcBySession session deckEmoBaseIds =>
              simp only [perform, Storage.startMtcBySession, Result.bind_eq_ok_iff] at dispatched
              obtain ⟨_, _, dispatched⟩ := dispatched
              exact Storage.startMtcOf_eligible dispatched
        rw [same]
        refine (or_iff_left fun earns => ?_).symm
        obtain ⟨_, _, _, _, other, _⟩ := earns
        cases other
    | finishMtcShop session playerOperations =>
        have whole := dispatched
        simp only [dispatch, Storage.finishMtcShop, getMain, bounded_bind_eq_pure_iff,
          Dispatched.of_eq_pure_iff, Storage.mainOfSession, Storage.elim_error_eq_ok_iff]
          at dispatched
        obtain ⟨main, acts, dispatched⟩ := dispatched
        obtain ⟨turn, played, finished⟩ := Storage.finishMtcShopOf_played dispatched
        rw [Storage.finish_eligible finished]
        have own : Earns calculateNewEp storage player
            ⟨surroundings, .finishMtcShop session playerOperations⟩ →
            player = main ∧ (turn.finalPlace.any fun place => place < 4) = true := by
          intro earns
          obtain ⟨_, _, other, _, same, registered, again, first, _⟩ := earns
          cases same
          cases acts.symm.trans registered
          cases played.symm.trans again
          exact ⟨rfl, first⟩
        split
        · rename_i first
          by_cases same : player = main
          · subst same
            rw [Function.update_self]
            exact iff_of_true rfl (.inr ⟨_, _, turn, after, rfl, acts, played, first, whole⟩)
          · rw [Function.update_of_ne same]
            exact (or_iff_left fun earns => same (own earns).1).symm
        · rename_i later
          exact (or_iff_left fun earns => later (own earns).2).symm
  · rw [execute_of_not_dispatch succeeds]
    refine (or_iff_left fun earns => ?_).symm
    obtain ⟨_, _, _, after, _, _, _, _, dispatched⟩ := earns
    exact succeeds ⟨after, dispatched⟩

/-! ## Claims -/

/-- The player's match ended on one of the first three places during the
calls. -/
def EarnedIn (calculateNewEp : Nat → Nat → List Nat → Nat) (calls : List (RuntimeCall AccountId))
    (player : AccountId) : Prop :=
  ∃ done transaction rest, calls = done ++ .game transaction :: rest ∧
    Earns calculateNewEp (Runtime.after calculateNewEp done).game player transaction

theorem earnedIn_snoc_iff {done : List (RuntimeCall AccountId)} {call : RuntimeCall AccountId}
    {player : AccountId} :
    EarnedIn calculateNewEp (done ++ [call]) player ↔ EarnedIn calculateNewEp done player ∨
      ∃ transaction, call = .game transaction ∧
        Earns calculateNewEp (Runtime.after calculateNewEp done).game player transaction := by
  constructor
  · intro earned
    obtain ⟨first, transaction, rest, whole, earns⟩ := earned
    cases rest using List.reverseRecOn with
    | nil =>
        obtain ⟨rfl, same⟩ := List.append_inj' whole rfl
        cases same
        exact .inr ⟨transaction, rfl, earns⟩
    | append_singleton rest last =>
        rw [← List.cons_append, ← List.append_assoc] at whole
        obtain ⟨rfl, _⟩ := List.append_inj' whole rfl
        exact .inl ⟨first, transaction, rest, rfl, earns⟩
  · intro earned
    rcases earned with ⟨first, transaction, rest, rfl, earns⟩ | ⟨transaction, rfl, earns⟩
    · exact ⟨first, transaction, rest ++ [call], by simp, earns⟩
    · exact ⟨done, transaction, [], rfl, earns⟩

/-- Eligible are exactly the players who earned it. -/
theorem eligible_iff_earnedIn (calls : List (RuntimeCall AccountId)) (player : AccountId) :
    (Runtime.after calculateNewEp calls).game.playerFirstAirdropEligible player = some true ↔
      EarnedIn calculateNewEp calls player := by
  refine @Runtime.after_invariant _ _ calculateNewEp (fun done =>
    (Runtime.after calculateNewEp done).game.playerFirstAirdropEligible player = some true ↔
      EarnedIn calculateNewEp done player) calls ?_ ?_
  · refine iff_of_false (fun same => by cases same) fun earned => ?_
    obtain ⟨_, _, _, whole, _⟩ := earned
    simp at whole
  · intro done call ih executed
    rw [earnedIn_snoc_iff, ← ih]
    generalize Runtime.after calculateNewEp (done ++ [call]) = after at executed
    have kept (noGame : ∀ transaction, call ≠ .game transaction)
        (same : after.game.playerFirstAirdropEligible =
          (Runtime.after calculateNewEp done).game.playerFirstAirdropEligible) :
        after.game.playerFirstAirdropEligible player = some true ↔
          (Runtime.after calculateNewEp done).game.playerFirstAirdropEligible player = some true ∨
          ∃ transaction, call = .game transaction ∧
            Earns calculateNewEp (Runtime.after calculateNewEp done).game player transaction := by
      rw [same]
      refine (or_iff_left fun earned => ?_).symm
      obtain ⟨transaction, same, _⟩ := earned
      exact noGame transaction same
    cases executed with
    | game transaction =>
        rw [execute_eligible_iff]
        simp
    | updated _ _ _ other => exact kept other rfl
    | failed other => exact kept other rfl
    | claimed => exact kept (by simp) rfl

/-- The accounts of the map, and the count of them. -/
structure ClaimedBy (airdrop : Airdrop AccountId) (claimed : List AccountId) : Prop where
  distinct : claimed.Nodup
  listed : ∀ player,
    (airdrop.playerAirdropDestinationKusamaAccountId player).isSome ↔ player ∈ claimed
  counted : airdrop.playerAirdropDestinationKusamaAccountIdCount.getD 0 = claimed.length
  bounded : claimed.length ≤ 500

theorem Airdrop.claim_eq_ok_iff {game : Storage AccountId}
    {playerAccountId kusamaAccountId : AccountId} {before after : Airdrop AccountId} :
    before.claim game playerAccountId kusamaAccountId = .ok after ↔
      before.playerAirdropDestinationKusamaAccountIdCount.getD 0 < 500 ∧
      before.playerAirdropDestinationKusamaAccountId playerAccountId = none ∧
      game.playerFirstAirdropEligible playerAccountId = some true ∧
      after = {
        playerAirdropDestinationKusamaAccountId :=
          update before.playerAirdropDestinationKusamaAccountId playerAccountId
            (some kusamaAccountId)
        playerAirdropDestinationKusamaAccountIdCount :=
          some (before.playerAirdropDestinationKusamaAccountIdCount.getD 0 + 1) } := by
  have eligible : (game.playerFirstAirdropEligible playerAccountId).getD false = true ↔
      game.playerFirstAirdropEligible playerAccountId = some true := by
    cases game.playerFirstAirdropEligible playerAccountId <;> simp
  unfold Airdrop.claim
  dsimp only
  split
  · rename_i full
    exact iff_of_false (by simp) fun accepted => full accepted.1
  · rename_i room
    split
    · rename_i claimed
      refine iff_of_false (by simp) fun accepted => ?_
      rw [accepted.2.1] at claimed
      cases claimed
    · rename_i unclaimed
      split
      · rename_i refused
        rw [eligible] at refused
        exact iff_of_false (by simp) fun accepted => refused accepted.2.2.1
      · rename_i accepted
        rw [not_not, eligible] at accepted
        rw [Except.ok.injEq, eq_comm]
        simp only [not_not] at room
        simp [room, accepted, Option.not_isSome_iff_eq_none.mp unclaimed]

theorem ClaimedBy.claim {game : Storage AccountId} {playerAccountId kusamaAccountId : AccountId}
    {before after : Airdrop AccountId} {claimed : List AccountId}
    (claims : ClaimedBy before claimed)
    (performed : before.claim game playerAccountId kusamaAccountId = .ok after) :
    ClaimedBy after (claimed ++ [playerAccountId]) := by
  obtain ⟨room, unclaimed, _, rfl⟩ := Airdrop.claim_eq_ok_iff.mp performed
  have fresh : playerAccountId ∉ claimed := by
    rw [← claims.listed, unclaimed]
    simp
  have length : (claimed ++ [playerAccountId]).length = claimed.length + 1 := by simp
  constructor
  · refine List.nodup_append.mpr ⟨claims.distinct, by simp, fun other listed new member => ?_⟩
    rw [List.mem_singleton.mp member]
    intro same
    exact fresh (same ▸ listed)
  · intro player
    by_cases own : player = playerAccountId
    · simp [own]
    · simp [claims.listed, own]
  · rw [length, ← claims.counted]
    rfl
  · rw [length, ← claims.counted]
    exact room

theorem Runtime.claimedBy (calls : List (RuntimeCall AccountId)) :
    ∃ claimed, ClaimedBy (Runtime.after calculateNewEp calls).airdrop claimed ∧
      ∀ player ∈ claimed, EarnedIn calculateNewEp calls player := by
  refine @Runtime.after_invariant _ _ calculateNewEp (fun done =>
    ∃ claimed, ClaimedBy (Runtime.after calculateNewEp done).airdrop claimed ∧
      ∀ player ∈ claimed, EarnedIn calculateNewEp done player) calls ?_ ?_
  · refine ⟨[], ⟨.nil, fun player => ?_, rfl, Nat.zero_le _⟩, List.forall_mem_nil _⟩
    simp [Runtime.after]
  · intro done call claims executed
    obtain ⟨claimed, claims, earned⟩ := claims
    have longer : ∀ player ∈ claimed, EarnedIn calculateNewEp (done ++ [call]) player :=
      fun player member => earnedIn_snoc_iff.mpr (.inl (earned player member))
    generalize Runtime.after calculateNewEp (done ++ [call]) = after at executed
    cases executed with
    | game | updated | failed => exact ⟨claimed, claims, longer⟩
    | @claimed playerAccountId _ _ performed =>
        refine ⟨claimed ++ [playerAccountId], claims.claim performed, fun player member => ?_⟩
        rcases List.mem_append.mp member with old | new
        · exact longer player old
        · rw [List.mem_singleton.mp new]
          have eligible := (Airdrop.claim_eq_ok_iff.mp performed).2.2.1
          exact earnedIn_snoc_iff.mpr (.inl ((eligible_iff_earnedIn done _).mp eligible))

/-- A destination is never changed. -/
theorem Runtime.destination_kept {calls rest : List (RuntimeCall AccountId)}
    {player kusamaAccountId : AccountId}
    (found : (Runtime.after calculateNewEp calls).airdrop.playerAirdropDestinationKusamaAccountId
      player = some kusamaAccountId) :
    (Runtime.after calculateNewEp (calls ++ rest)).airdrop.playerAirdropDestinationKusamaAccountId
      player = some kusamaAccountId := by
  induction rest using List.reverseRecOn with
  | nil => rwa [List.append_nil]
  | append_singleton done call ih =>
      have executed := @Runtime.execute_executed _ _ calculateNewEp
        (Runtime.after calculateNewEp (calls ++ done)) call
      rw [← Runtime.after_snoc, List.append_assoc] at executed
      generalize Runtime.after calculateNewEp (calls ++ (done ++ [call])) = after at executed
      cases executed with
      | game | updated | failed => exact ih
      | @claimed playerAccountId _ _ performed =>
          obtain ⟨_, unclaimed, _, rfl⟩ := Airdrop.claim_eq_ok_iff.mp performed
          have different : player ≠ playerAccountId := by
            intro same
            rw [← same, ih] at unclaimed
            cases unclaimed
          simp only [Function.update_of_ne different]
          exact ih

/-- After any calls the count is that of the accounts with a destination, at
most 500 that all earned it.  A claim is accepted from exactly the others who
earned it while there is room, and its destination is never changed. -/
theorem airdrop_claimed_once (calls : List (RuntimeCall AccountId)) :
    ∃ claimed, ClaimedBy (Runtime.after calculateNewEp calls).airdrop claimed ∧
      (∀ player ∈ claimed, EarnedIn calculateNewEp calls player) ∧
      (∀ playerAccountId kusamaAccountId,
        (∃ airdrop, (Runtime.after calculateNewEp calls).airdrop.claim
          (Runtime.after calculateNewEp calls).game playerAccountId kusamaAccountId =
          .ok airdrop) ↔
        claimed.length < 500 ∧ playerAccountId ∉ claimed ∧
          EarnedIn calculateNewEp calls playerAccountId) ∧
      ∀ player kusamaAccountId rest,
        (Runtime.after calculateNewEp calls).airdrop.playerAirdropDestinationKusamaAccountId
          player = some kusamaAccountId →
        (Runtime.after calculateNewEp
          (calls ++ rest)).airdrop.playerAirdropDestinationKusamaAccountId player =
            some kusamaAccountId := by
  obtain ⟨claimed, claims, earned⟩ := @Runtime.claimedBy _ _ calculateNewEp calls
  refine ⟨claimed, claims, earned, fun playerAccountId kusamaAccountId => ?_,
    fun player kusamaAccountId rest found => Runtime.destination_kept found⟩
  simp only [Airdrop.claim_eq_ok_iff, claims.counted, eligible_iff_earnedIn, ← claims.listed,
    Option.not_isSome_iff_eq_none, exists_and_left, exists_eq, and_true]

/-- A player with seven emos in every battle beats three rivals and claims. -/
theorem airdrop_claimed_once_winner :
    ∃ calls : List (RuntimeCall Nat),
      (Runtime.after keptEp calls).airdrop.playerAirdropDestinationKusamaAccountId 0 = some 9 ∧
      EarnedIn keptEp calls 0 ∧
      ∀ rest, (Runtime.after keptEp
        (calls ++ rest)).airdrop.playerAirdropDestinationKusamaAccountId 0 = some 9 := by
  let leader : Ability := .battle (.general (.asOneself .pre (.setEmo .ally 11)))
  let bases : Bases := fun id =>
    if id < 12 then
      some ⟨id, .human, id % 6 + 1, 1, 1, if id = 6 then List.replicate 6 leader else []⟩
    else none
  let without : Outside Nat :=
    { getRandomSeed := fun _ => 5
      chooseGhosts := fun _ _ _ => List.replicate 3 (1, 100, {}) }
  let surroundings : Surroundings Nat := ⟨without, .first, 40, 0, 0⟩
  let turn (playerOperations : List Shop.PlayerOperation) : RuntimeCall Nat :=
    .game ⟨surroundings, .finishMtcShop 1 playerOperations⟩
  let calls : List (RuntimeCall Nat) :=
    [.updateEmoBases true bases [6, 7, 8, 9, 10, 11] [0, 1, 2, 3, 4, 5] false,
      .game ⟨surroundings, .start (.startMtc 0 1 [0, 1, 2, 3, 4, 5])⟩,
      turn [.buy 35 0], turn [], turn [], .claim 0 9]
  have claimed : (Runtime.after keptEp calls).airdrop.playerAirdropDestinationKusamaAccountId 0 =
      some 9 := by
    decide +kernel
  obtain ⟨players, claims, earned, _, kept⟩ := @airdrop_claimed_once _ _ keptEp calls
  have listed : 0 ∈ players := (claims.listed 0).mp (by rw [claimed]; rfl)
  exact ⟨calls, claimed, earned 0 listed, fun rest => kept 0 9 rest claimed⟩

end EmojiBattler.Pallet
