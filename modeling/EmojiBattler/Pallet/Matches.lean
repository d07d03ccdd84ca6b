import EmojiBattler.Game.Matches
import EmojiBattler.Pallet.Ratings

/-! # The matches on the chain

The seven maps of a match have the same accounts, so a turn of a running match
finds everything it reads. -/

namespace EmojiBattler.Pallet

open EmojiBattler.Emo EmojiBattler.Mtc
open Function (update)

/-! ## Failures -/

theorem bind_eq_error_iff {ε : Type} {first : Except ε α} {second : α → Except ε β} {error : ε} :
    (first >>= second) = .error error ↔
      first = .error error ∨ ∃ middle, first = .ok middle ∧ second middle = .error error := by
  cases first with
  | error other =>
      change Except.error other = Except.error error ↔ _
      simp
  | ok middle =>
      change second middle = .error error ↔ _
      simp

theorem elim_error_eq_error_iff {found : Option α} {missing error : Error} :
    found.elim (Except.error missing) Except.ok = .error error ↔
      found = none ∧ missing = error := by
  cases found <;> simp

/-- The call ends with an error. -/
def Dispatched.FailsWith (dispatched : Dispatched α) (error : Error) : Prop :=
  dispatched.run = some (.error error)

def Dispatched.error? (dispatched : Dispatched α) : Option Error :=
  match dispatched.run with
  | some (.error error) => some error
  | _ => none

theorem Dispatched.failsWith_of_error? {dispatched : Dispatched α} {error : Error}
    (found : dispatched.error? = some error) : dispatched.FailsWith error := by
  unfold Dispatched.error? at found
  split at found
  · rename_i failed
    cases found
    exact failed
  · cases found

@[simp] theorem Dispatched.failsWith_of_iff {result : Except Error α} {error : Error} :
    (Dispatched.of result).FailsWith error ↔ result = .error error := by
  change some result = some (.error error) ↔ _
  simp

@[simp] theorem Dispatched.failsWith_get_iff {stored : Option α} {missing error : Error} :
    (Dispatched.get stored missing).FailsWith error ↔ stored = none ∧ missing = error := by
  cases stored <;> simp [Dispatched.get]

@[simp] theorem Dispatched.not_failsWith_pure {value : α} {error : Error} :
    ¬ (pure value : Dispatched α).FailsWith error := by
  intro failed
  cases failed

theorem Dispatched.failsWith_bind_iff {first : Dispatched α} {second : α → Dispatched β}
    {error : Error} : (first >>= second).FailsWith error ↔
      first.FailsWith error ∨ ∃ middle, first = pure middle ∧ (second middle).FailsWith error := by
  change Option.bind first (ExceptT.bindCont second) = some (.error error) ↔
    first = some (.error error) ∨
      ∃ middle, first = some (.ok middle) ∧ second middle = some (.error error)
  cases first with
  | none => simp
  | some result =>
      cases result with
      | error other =>
          constructor
          · intro failed
            change some (Except.error other) = some (Except.error error) at failed
            cases failed
            exact .inl rfl
          · intro failed
            rcases failed with here | ⟨_, same, _⟩
            · cases here
              rfl
            · cases same
      | ok middle =>
          constructor
          · intro failed
            exact .inr ⟨middle, rfl, failed⟩
          · intro failed
            rcases failed with here | ⟨_, same, later⟩
            · cases here
            · cases same
              exact later

/-- An error of `common` becomes the error of the pallet. -/
theorem Dispatched.failsWith_mapErr {result : Fueled α} {mapped error : Error}
    (failed : (Dispatched.mapErr result mapped).FailsWith error) : error = mapped := by
  unfold Dispatched.FailsWith Dispatched.mapErr at failed
  cases ended : result.run with
  | none => simp [ended, ExceptT.run_mk] at failed
  | some outcome =>
      cases outcome with
      | ok value => simp [ended, ExceptT.run_mk, Except.mapError] at failed
      | error reported =>
          simp only [ended, ExceptT.run_mk, Option.map_some, Except.mapError, Option.some.injEq,
            Except.error.injEq] at failed
          exact failed.symm

theorem Dispatched.mapErr_eq_pure {result : Fueled α} {mapped : Error} {value : α}
    (performed : Dispatched.mapErr result mapped = pure value) : result = pure value := by
  unfold Dispatched.mapErr at performed
  cases ended : result.run with
  | none =>
      rw [ended] at performed
      cases performed
  | some outcome =>
      rw [ended] at performed
      cases outcome with
      | ok value =>
          cases performed
          exact ended
      | error reported => cases performed

/-! ## Records -/

/-- What the storage holds of a player. -/
structure PlayerRecord (AccountId : Type) where
  ep : Option Nat
  seed : Option Nat
  pool : Option (List Emo)
  health : Option Nat
  gradeAndBoardHistory : Option (List GradeAndBoard)
  upgradeCoin : Option Nat
  ghosts : Option (List (PlayerGhost AccountId))
  ghostStates : Option (List GhostState)
  battleGhostIndex : Option Nat

variable {AccountId : Type}

def Storage.record (storage : Storage AccountId) (player : AccountId) : PlayerRecord AccountId where
  ep := storage.playerEp player
  seed := storage.playerSeed player
  pool := storage.playerPool player
  health := storage.playerHealth player
  gradeAndBoardHistory := storage.playerGradeAndBoardHistory player
  upgradeCoin := storage.playerUpgradeCoin player
  ghosts := storage.playerGhosts player
  ghostStates := storage.playerGhostStates player
  battleGhostIndex := storage.playerBattleGhostIndex player

/-- A player without a match, or with all of one. -/
inductive RecordState : PlayerRecord AccountId → Prop
  | idle (ep seed : Option Nat) :
      RecordState ⟨ep, seed, none, none, none, none, none, none, none⟩
  | playing (ep seed health battleGhostIndex : Nat) (upgradeCoin : Option Nat) (pool : List Emo)
      (history : List GradeAndBoard) (ghosts : List (PlayerGhost AccountId))
      (ghostStates : List GhostState) (alive : 1 ≤ health ∧ health ≤ playerInitialHealth)
      (short : history.length ≤ 30) :
      RecordState ⟨some ep, some seed, some pool, some health, some history, upgradeCoin,
        some ghosts, some ghostStates, some battleGhostIndex⟩

/-- The records of the other players are the same. -/
def OthersKept (player : AccountId) (before after : Storage AccountId) : Prop :=
  ∀ other, other ≠ player → after.record other = before.record other

theorem RecordState.playing_of_pool {record : PlayerRecord AccountId} (state : RecordState record)
    (started : record.pool.isSome) : ∃ ep, record.ep = some ep := by
  cases state with
  | idle => cases started
  | playing ep => exact ⟨ep, rfl⟩

/-! ## What a call does to the records -/

variable [DecidableEq AccountId]

namespace Storage

/-- A start that abandons a match finds its EP. -/
theorem penalizeUnfinished_eq_ok {main : AccountId} {storage : Storage AccountId}
    (state : RecordState (storage.record main)) :
    ∃ after, storage.penalizeUnfinished main = .ok after ∧ OthersKept main storage after ∧
      after.emoBases = storage.emoBases ∧
      after.deckFixedEmoBaseIds = storage.deckFixedEmoBaseIds ∧
      after.deckBuiltEmoBaseIds = storage.deckBuiltEmoBaseIds := by
  unfold penalizeUnfinished
  split
  · rename_i playing
    obtain ⟨ep, found⟩ := state.playing_of_pool playing
    change (storage.cleanupFinished main).playerEp main = some ep at found
    dsimp only
    rw [found]
    refine ⟨_, rfl, fun other different => ?_, rfl, rfl, rfl⟩
    simp [record, cleanupFinished, Function.update_of_ne different]
  · exact ⟨storage, rfl, fun _ _ => rfl, rfl, rfl, rfl⟩

/-- A start leaves a whole match. -/
theorem startMtcOf_records {outside : Outside AccountId} {main session : AccountId}
    {deckEmoBaseIds : List Nat} {before after : Storage AccountId}
    (state : RecordState (before.record main))
    (performed : before.startMtcOf outside main session deckEmoBaseIds = .ok after) :
    RecordState (after.record main) ∧ (after.record main).pool.isSome ∧
      OthersKept main before after ∧ before.emoBases.isSome ∧
      after.emoBases = before.emoBases := by
  obtain ⟨penalized, penalty, others, bases, _⟩ := penalizeUnfinished_eq_ok state
  simp only [startMtcOf, penalty, Result.bind_eq_ok_iff, Result.pure_eq_ok_iff,
    elim_error_eq_ok_iff] at performed
  obtain ⟨_, same, emoBases, foundBases, _, _, _, _, pool, _, rfl⟩ := performed
  cases same
  refine ⟨?_, ?_, fun other different => ?_, ?_, bases⟩
  · simp only [record, matchmake, Function.update_self]
    exact .playing _ _ _ _ _ _ _ _ _ (by decide) (Nat.zero_le _)
  · simp [record, matchmake]
  · rw [← others other different]
    simp [record, matchmake, Function.update_of_ne different]
  · rw [← bases, foundBases]
    rfl

variable {calculateNewEp : Nat → Nat → List Nat → Nat}

/-- The end of a match leaves nothing of it. -/
theorem finishMtc_records {accountId : AccountId} {place : Nat} {ghostStates : List GhostState}
    {ghostEps : List Nat} {history : List GradeAndBoard} {before after : Storage AccountId}
    (performed : before.finishMtc calculateNewEp accountId place ghostStates ghostEps history =
      .ok after) :
    (∃ ep, after.record accountId =
      ⟨ep, before.playerSeed accountId, none, none, none, none, none, none, none⟩) ∧
      OthersKept accountId before after ∧ after.emoBases = before.emoBases := by
  simp only [finishMtc, updateEp, Result.bind_eq_ok_iff, Result.pure_eq_ok_iff] at performed
  obtain ⟨_, ⟨ep, _, rfl⟩, rfl⟩ := performed
  split
  · refine ⟨⟨_, by simp [record, cleanupFinished, registerGhost]; rfl⟩, fun other different => ?_,
      rfl⟩
    simp [record, cleanupFinished, registerGhost, Function.update_of_ne different]
  · refine ⟨⟨_, by simp [record, cleanupFinished]; rfl⟩, fun other different => ?_, rfl⟩
    simp [record, cleanupFinished, Function.update_of_ne different]

/-- The next turn of a match. -/
theorem finishBattle_records {surroundings : Surroundings AccountId} {accountId : AccountId}
    {upgradeCoin : Option Nat} {ghostStates : List GhostState}
    {battleGhostIndex newSeed health : Nat} {history : List GradeAndBoard} {emoBases : Bases}
    {before after : Storage AccountId}
    (performed : before.finishBattle surroundings accountId upgradeCoin ghostStates
      battleGhostIndex newSeed health history emoBases = .ok after) :
    history.length ≤ 30 ∧ (∃ coin index, after.record accountId =
      { before.record accountId with
        health := some health
        gradeAndBoardHistory := some history
        upgradeCoin := coin
        ghostStates := some ghostStates
        battleGhostIndex := some index }) ∧
      OthersKept accountId before after ∧ after.emoBases = before.emoBases := by
  unfold finishBattle at performed
  split at performed
  · cases performed
  · rename_i within
    simp only [Result.bind_eq_ok_iff, Result.pure_eq_ok_iff] at performed
    obtain ⟨index, _, rfl⟩ := performed
    refine ⟨?_, ⟨_, index, by simp [record]; rfl⟩, fun other different => ?_, rfl⟩
    · simpa [exceedsGradeAndBoardHistoryLimit] using within
    · simp [record, Function.update_of_ne different]

theorem finish_records {surroundings : Surroundings AccountId} {accountId : AccountId}
    {grade newSeed battleGhostIndex health : Nat} {board : Board} {upgradeCoin : Option Nat}
    {ghostStates : List GhostState} {ghostEps : List Nat} {history : List GradeAndBoard}
    {finalPlace : Option Nat} {emoBases : Emo.Bases} {before after : Storage AccountId}
    (state : RecordState (before.record accountId)) (playing : (before.playerPool accountId).isSome)
    (within : health ≤ playerInitialHealth) (alive : finalPlace = none → health ≠ 0)
    (performed : before.finish calculateNewEp surroundings accountId grade board newSeed
      upgradeCoin battleGhostIndex health ghostStates ghostEps history finalPlace emoBases =
      .ok after) :
    RecordState (after.record accountId) ∧ OthersKept accountId before after ∧
      after.emoBases = before.emoBases := by
  cases finalPlace with
  | some place =>
      simp only [finish, Result.bind_eq_ok_iff, Result.pure_eq_ok_iff] at performed
      obtain ⟨finished, ended, rfl⟩ := performed
      obtain ⟨⟨ep, left⟩, others, bases⟩ := finishMtc_records ended
      refine ⟨?_, fun other different => ?_, bases⟩
      · simp only [record, PlayerRecord.mk.injEq] at left
        obtain ⟨_, _, pool, health, history, coin, ghosts, states, index⟩ := left
        simp only [record, pool, health, history, coin, ghosts, states, index]
        exact .idle _ _
      · rw [← others other different]
        simp [record, Function.update_of_ne different]
  | none =>
      simp only [finish, Result.bind_eq_ok_iff, Result.pure_eq_ok_iff] at performed
      obtain ⟨finished, ended, rfl⟩ := performed
      obtain ⟨short, ⟨coin, index, next⟩, others, bases⟩ := finishBattle_records ended
      refine ⟨?_, fun other different => ?_, bases⟩
      · generalize stored : before.record accountId = record at state next
        cases state with
        | idle =>
            have pool : before.playerPool accountId = none := congrArg PlayerRecord.pool stored
            rw [pool] at playing
            cases playing
        | playing ep =>
            simp only [Storage.record, PlayerRecord.mk.injEq] at next
            obtain ⟨ep, _, pool, health, history, coin, ghosts, states, index⟩ := next
            simp only [Storage.record, Function.update_self, ep, pool, health, history, coin,
              ghosts, states, index]
            exact .playing _ _ _ _ _ _ _ _ _ ⟨Nat.pos_of_ne_zero (alive rfl), within⟩ short
      · rw [← others other different]
        simp [record, Function.update_of_ne different]

/-- A turn ends the match of its player or stores the next turn. -/
theorem finishMtcShopOf_records {surroundings : Surroundings AccountId} {accountId : AccountId}
    {playerOperations : List Shop.PlayerOperation} {before after : Storage AccountId}
    (state : RecordState (before.record accountId))
    (performed : before.finishMtcShopOf calculateNewEp surroundings accountId playerOperations =
      pure after) :
    RecordState (after.record accountId) ∧ OthersKept accountId before after ∧
      after.emoBases = before.emoBases := by
  simp only [finishMtcShopOf, battle, bounded_bind_eq_pure_iff, Dispatched.of_eq_pure_iff,
    Dispatched.get_eq_pure_iff] at performed
  obtain ⟨_, _, history, foundHistory, _, _, _, _, health, foundHealth, _, _, _, _, _, _, _,
    ⟨_, battled, same⟩, finished⟩ := performed
  cases same
  have fought := Dispatched.mapErr_eq_pure battled
  obtain ⟨lower, _, alive⟩ := Game.battleAll_steps fought
  have whole := state
  generalize stored : before.record accountId = record at state
  cases state with
  | idle =>
      have none : before.playerGradeAndBoardHistory accountId = none :=
        congrArg PlayerRecord.gradeAndBoardHistory stored
      rw [none] at foundHistory
      cases foundHistory
  | playing _ _ current _ _ _ _ _ _ bounds =>
      have pool := congrArg (fun record => record.pool.isSome) stored
      have same : before.playerHealth accountId = some current := congrArg PlayerRecord.health stored
      rw [same] at foundHealth
      cases foundHealth
      exact finish_records whole pool (Nat.le_trans lower bounds.2) alive finished

/-- The errors that a turn of a running match can end with. -/
def turnErrors : List Error :=
  [.invalidShopPlayerOperations, .battleFailed, .battleGhostSelectionFailed, .maxTurnExceeded]

theorem finish_fails {surroundings : Surroundings AccountId} {accountId : AccountId}
    {grade newSeed battleGhostIndex health : Nat} {board : Board} {upgradeCoin : Option Nat}
    {ghostStates : List GhostState} {ghostEps : List Nat} {history : List GradeAndBoard}
    {finalPlace : Option Nat} {emoBases : Emo.Bases} {storage : Storage AccountId} {error : Error}
    (rated : (storage.playerEp accountId).isSome)
    (failed : storage.finish calculateNewEp surroundings accountId grade board newSeed
      upgradeCoin battleGhostIndex health ghostStates ghostEps history finalPlace emoBases =
      .error error) : error ∈ turnErrors := by
  obtain ⟨ep, found⟩ := Option.isSome_iff_exists.mp rated
  cases finalPlace with
  | some place =>
      simp only [finish, finishMtc, updateEp, found] at failed
      cases failed
  | none =>
      simp only [finish, finishBattle] at failed
      split at failed
      · cases failed
        decide
      · cases selected : selectBattleGhostIndex { emoBases, sampler := surroundings.sampler }
          ghostStates battleGhostIndex newSeed with
        | error _ =>
            rw [selected] at failed
            cases failed
            simp [turnErrors]
        | ok _ =>
            rw [selected] at failed
            cases failed

/-- A turn of a running match finds all it reads. -/
theorem finishMtcShopOf_fails {surroundings : Surroundings AccountId} {accountId : AccountId}
    {playerOperations : List Shop.PlayerOperation} {storage : Storage AccountId} {error : Error}
    (state : RecordState (storage.record accountId))
    (playing : (storage.playerPool accountId).isSome) (bases : storage.emoBases.isSome)
    (failed : (storage.finishMtcShopOf calculateNewEp surroundings accountId
      playerOperations).FailsWith error) : error ∈ turnErrors := by
  generalize stored : storage.record accountId = record at state
  cases state with
  | idle =>
      have none : storage.playerPool accountId = none := congrArg PlayerRecord.pool stored
      rw [none] at playing
      cases playing
  | playing ep seed health index upgradeCoin pool history ghosts states _ short =>
      simp only [Storage.record, PlayerRecord.mk.injEq] at stored
      obtain ⟨foundEp, foundSeed, foundPool, foundHealth, foundHistory, _, foundGhosts,
        foundStates, foundIndex⟩ := stored
      have turn : ∃ taken, Mtc.getTurnAndPreviousGradeAndBoard history = .ok taken := by
        simp only [getTurnAndPreviousGradeAndBoard, Result.bind_eq_ok_iff, addU8_eq_ok_iff,
          Result.pure_eq_ok_iff]
        exact ⟨_, _, ⟨by simp only [u8Max]; omega, rfl⟩, rfl⟩
      obtain ⟨taken, turn⟩ := turn
      simp only [finishMtcShopOf, Storage.verifyPlayerOperationsAndUpdate, battle,
        Dispatched.failsWith_bind_iff, Dispatched.failsWith_get_iff, Dispatched.get_eq_pure_iff,
        Dispatched.failsWith_of_iff, foundSeed, foundPool, foundHealth, foundHistory, foundGhosts,
        foundStates, foundIndex, Option.some.injEq, exists_eq_left', reduceCtorEq, false_and,
        false_or, Dispatched.not_failsWith_pure, and_false, exists_false, or_false] at failed
      obtain ⟨none, _⟩ | ⟨_, _, failed⟩ := failed
      · rw [none] at bases
        cases bases
      · rcases failed with panicked | ⟨_, _, rejected | ⟨_, _, fought | ⟨_, _, ended⟩⟩⟩
        · rw [turn] at panicked
          cases panicked
        · rw [Dispatched.failsWith_mapErr rejected]
          decide
        · rw [Dispatched.failsWith_mapErr fought]
          decide
        · exact finish_fails (by rw [foundEp]; rfl) ended

/-- The errors that a start can end with. -/
def startErrors : List Error :=
  [.emoBasesNone, .fixedEmoBaseIdsNone, .builtEmoBaseIdsNone, .deckBuildingFailed]

theorem startMtcOf_fails {outside : Outside AccountId} {main session : AccountId}
    {deckEmoBaseIds : List Nat} {storage : Storage AccountId} {error : Error}
    (state : RecordState (storage.record main))
    (failed : storage.startMtcOf outside main session deckEmoBaseIds = .error error) :
    error ∈ startErrors := by
  obtain ⟨penalized, penalty, _⟩ := penalizeUnfinished_eq_ok state
  simp only [startMtcOf, bind_eq_error_iff, penalty, elim_error_eq_error_iff, reduceCtorEq,
    false_or] at failed
  obtain ⟨_, _, ⟨_, rfl⟩ | ⟨emoBases, _, ⟨_, rfl⟩ | ⟨fixedEmoBaseIds, _, ⟨_, rfl⟩ |
    ⟨builtEmoBaseIds, _, failed⟩⟩⟩⟩ := failed
  · decide
  · decide
  · decide
  · rcases failed with built | ⟨_, _, wrote⟩
    · cases pool : buildPool deckEmoBaseIds emoBases fixedEmoBaseIds builtEmoBaseIds with
      | error _ =>
          rw [pool] at built
          cases built
          simp [startErrors]
      | ok _ =>
          rw [pool] at built
          cases built
    · cases wrote

/-- Every match is whole, and a match is played with bases. -/
structure MatchesWhole (storage : Storage AccountId) : Prop where
  records : ∀ player, RecordState (storage.record player)
  bases : ∀ player, (storage.playerPool player).isSome → storage.emoBases.isSome

/-- A call for one player keeps the matches whole. -/
theorem MatchesWhole.of_others {player : AccountId} {before after : Storage AccountId}
    (whole : MatchesWhole before) (state : RecordState (after.record player))
    (others : OthersKept player before after) (bases : after.emoBases = before.emoBases)
    (played : (after.playerPool player).isSome → before.emoBases.isSome) : MatchesWhole after := by
  constructor
  · intro other
    by_cases own : other = player
    · exact own ▸ state
    · rw [others other own]
      exact whole.records other
  · intro other playing
    rw [bases]
    by_cases own : other = player
    · subst own
      exact played playing
    · have same : after.playerPool other = before.playerPool other :=
        congrArg PlayerRecord.pool (others other own)
      rw [same] at playing
      exact whole.bases other playing

end Storage

/-! ## Calls -/

variable {calculateNewEp : Nat → Nat → List Nat → Nat}

theorem dispatch_matchesWhole {transaction : Transaction AccountId}
    {before after : Storage AccountId} (whole : before.MatchesWhole)
    (dispatched : dispatch calculateNewEp before transaction = pure after) :
    after.MatchesWhole := by
  have started {main session : AccountId} {deckEmoBaseIds : List Nat}
      (performed : before.startMtcOf transaction.surroundings.outside main session
        deckEmoBaseIds = .ok after) : after.MatchesWhole := by
    obtain ⟨state, _, others, found, bases⟩ :=
      Storage.startMtcOf_records (whole.records main) performed
    exact whole.of_others state others bases fun _ => found
  obtain ⟨surroundings, extrinsic⟩ := transaction
  cases extrinsic with
  | start call =>
      simp only [dispatch, Dispatched.of_eq_pure_iff] at dispatched
      cases call with
      | startMtc main session deckEmoBaseIds => exact started dispatched
      | startMtcBySession session deckEmoBaseIds =>
          simp only [perform, Storage.startMtcBySession, Result.bind_eq_ok_iff] at dispatched
          obtain ⟨main, _, dispatched⟩ := dispatched
          exact started dispatched
  | finishMtcShop session playerOperations =>
      simp only [dispatch, Storage.finishMtcShop, bounded_bind_eq_pure_iff] at dispatched
      obtain ⟨main, _, dispatched⟩ := dispatched
      have history := dispatched
      simp only [Storage.finishMtcShopOf, bounded_bind_eq_pure_iff, Dispatched.get_eq_pure_iff]
        at history
      obtain ⟨emoBases, found, _⟩ := history
      obtain ⟨state, others, bases⟩ :=
        Storage.finishMtcShopOf_records (whole.records main) dispatched
      exact whole.of_others state others bases fun _ => by rw [found]; rfl

theorem execute_matchesWhole {transaction : Transaction AccountId} {storage : Storage AccountId}
    (whole : storage.MatchesWhole) : (execute calculateNewEp storage transaction).MatchesWhole := by
  by_cases succeeds : ∃ after, dispatch calculateNewEp storage transaction = pure after
  · obtain ⟨after, dispatched⟩ := succeeds
    rw [execute_of_dispatch dispatched]
    exact dispatch_matchesWhole whole dispatched
  · rwa [execute_of_not_dispatch succeeds]

/-- The errors that are left for a call. -/
def ErrorExplained (storage : Storage AccountId) (error : Error) : Extrinsic AccountId → Prop
  | .start (.startMtc _ _ _) => error ∈ Storage.startErrors
  | .start (.startMtcBySession session _) =>
      error ∈ Storage.startErrors ∨
        (storage.playerSessionToMain session = none ∧ error = .playerSessionToMainNone)
  | .finishMtcShop session _ =>
      (storage.playerSessionToMain session = none ∧ error = .playerSessionToMainNone) ∨
      ∃ main, storage.playerSessionToMain session = some main ∧
        if (storage.playerPool main).isSome then error ∈ Storage.turnErrors
        else error = .emoBasesNone ∨ error = .playerGradeAndBoardHistoryNone

theorem dispatch_fails {transaction : Transaction AccountId} {storage : Storage AccountId}
    {error : Error} (whole : storage.MatchesWhole)
    (failed : (dispatch calculateNewEp storage transaction).FailsWith error) :
    ErrorExplained storage error transaction.extrinsic := by
  obtain ⟨surroundings, extrinsic⟩ := transaction
  cases extrinsic with
  | start call =>
      simp only [dispatch, Dispatched.failsWith_of_iff] at failed
      cases call with
      | startMtc main session deckEmoBaseIds =>
          exact Storage.startMtcOf_fails (whole.records main) failed
      | startMtcBySession session deckEmoBaseIds =>
          simp only [perform, Storage.startMtcBySession, Storage.mainOfSession, bind_eq_error_iff,
            elim_error_eq_error_iff] at failed
          rcases failed with ⟨none, rfl⟩ | ⟨main, _, failed⟩
          · exact .inr ⟨none, rfl⟩
          · exact .inl (Storage.startMtcOf_fails (whole.records main) failed)
  | finishMtcShop session playerOperations =>
      simp only [dispatch, Storage.finishMtcShop, getMain, Dispatched.failsWith_bind_iff,
        Dispatched.failsWith_of_iff, Storage.mainOfSession, elim_error_eq_error_iff,
        Dispatched.of_eq_pure_iff, Storage.elim_error_eq_ok_iff] at failed
      rcases failed with ⟨none, rfl⟩ | ⟨main, acts, failed⟩
      · exact .inl ⟨none, rfl⟩
      · refine .inr ⟨main, acts, ?_⟩
        split
        · rename_i playing
          exact Storage.finishMtcShopOf_fails (whole.records main) playing
            (whole.bases main playing) failed
        · rename_i idle
          have history : storage.playerGradeAndBoardHistory main = none := by
            have state := whole.records main
            generalize stored : storage.record main = record at state
            cases state with
            | idle => exact congrArg PlayerRecord.gradeAndBoardHistory stored
            | playing =>
                have pool := congrArg PlayerRecord.pool stored
                exact absurd (congrArg Option.isSome pool) idle
          simp only [Storage.finishMtcShopOf, Dispatched.failsWith_bind_iff,
            Dispatched.failsWith_get_iff, Dispatched.get_eq_pure_iff, history, reduceCtorEq,
            true_and, false_and, exists_false, or_false] at failed
          rcases failed with ⟨_, rfl⟩ | ⟨_, _, rfl⟩
          · exact .inl rfl
          · exact .inr rfl

end EmojiBattler.Pallet
