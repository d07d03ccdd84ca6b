import EmojiBattler.Battle.Renaming
import EmojiBattler.Front.Shop
import EmojiBattler.Game.Isolation
import EmojiBattler.Mtc.Pool

/-! # A match on both sides

The front asks the contract for a match when it starts and for a seed after
every shop, and computes the rest itself.  It stays with the contract until the
match is over. -/

namespace EmojiBattler.Front

open EmojiBattler.Emo EmojiBattler.Mtc EmojiBattler.Mtc.Storage EmojiBattler.Game
open EmojiBattler.Mtc.Shop (PlayerOperation KeyedBases idCount getUpgradeCoin decreaseUpgradeCoin)

/-- `MtcState` less what is only shown: the EP before the match and the
addresses of the ghosts. -/
structure WholeMtcState extends MtcState where
  seed : Nat
  pool : List Mtc.Emo
  health : Nat
  ghosts : List Ghost
  ghostStates : List GhostState
  battleGhostIndex : Nat
deriving DecidableEq

variable {AccountId : Type}

/-- The query of the connection and the loop of `start` that leaves out the
accounts. -/
def playerMtcImmutable (contract : Contract AccountId) (player : AccountId) :
    Option (List Mtc.Emo × List Ghost) := do
  let immutable ← contract.playerMtcImmutable player
  return (immutable.pool, immutable.ghosts.map fun o => (o.map Prod.snd).getD {})

/-- The state that `start` builds once the contract has started the match. -/
def start (contract : Contract AccountId) (player : AccountId) : Option WholeMtcState := do
  let seed ← contract.playerSeed player
  let (pool, ghosts) ← playerMtcImmutable contract player
  let mutable ← contract.playerMtcMutable player
  return { buildInitialMtcState mutable.upgradeCoin with
    seed
    pool
    health := mutable.health
    ghosts
    ghostStates := mutable.ghostStates
    battleGhostIndex := mutable.battleGhostIndex }

/-- Returns the place and the state of the id generator as well. -/
def WholeMtcState.finishBattle (env : Env) (fuel : Nat) (mtcState : WholeMtcState)
    (generatedIds : Nat) : Fueled (WholeMtcState × Option Nat × Nat) := do
  let (finalPlace, health, ghostStates, generatedIds) ← battleAll env fuel mtcState.board
    mtcState.health mtcState.ghostStates mtcState.grade mtcState.ghosts mtcState.battleGhostIndex
    mtcState.turn mtcState.seed generatedIds
  let mtcState := { mtcState with health, ghostStates }
  -- A place of zero would count as none.
  match finalPlace.filter fun place => place ≠ 0 with
  | some place => return (mtcState, some place, generatedIds)
  | none => do
      let battleGhostIndex ← Fueled.of
        (selectBattleGhostIndex env ghostStates mtcState.battleGhostIndex mtcState.seed)
      return ({ mtcState with
        toMtcState := Front.finishBattle mtcState.toMtcState
        battleGhostIndex }, none, generatedIds)

/-- What the contract runs on. -/
abbrev contractEnv (chain : Chain AccountId) (emoBases : Bases) : Env where
  emoBases := emoBases
  sampler := chain.sampler

/-- What the front runs on, with the logs that it shows. -/
abbrev frontEnv (chain : Chain AccountId) (emoBases : Bases) : Env :=
  (contractEnv chain emoBases).withLogs true

/-- A turn in the shop that keeps the coins for the selected emo and fits the
ids and the operations of the chain. -/
structure PlaysShop (env : Env) (fuel : Nat) (mtcState : WholeMtcState) (generatedIds : Nat)
    (buttons : List Button) (last : ShopSession) : Prop where
  played : playShop env fuel mtcState.seed mtcState.pool mtcState.toMtcState generatedIds buttons =
    some last
  solvent : ∀ done shop, done <+: buttons → playShop env fuel mtcState.seed mtcState.pool
    mtcState.toMtcState generatedIds done = some shop → Solvent shop
  room : last.session.generatedIds ≤ generatedIds + idCount
  few : last.session.shopState.playerOperations.length < 200

/-- The state with which the battle starts. -/
def WholeMtcState.startBattle (mtcState : WholeMtcState) (last : ShopSession) (seed : Nat) :
    WholeMtcState :=
  { mtcState with toMtcState := last.session.mtcState, seed }

/-! ## Agreement -/

/-- The front shows what the contract has stored of a match. -/
structure Shows (mutable : PlayerMutable) (mtcState : WholeMtcState) : Prop where
  turn : mtcState.turn = mutable.gradeAndBoardHistory.length + 1
  previous : mutable.gradeAndBoardHistory.getLast?.getD { grade := 1, board := [] } =
    { grade := mtcState.grade, board := mtcState.board }
  health : mutable.health = mtcState.health
  ghostStates : mutable.ghostStates = mtcState.ghostStates
  battleGhostIndex : mutable.battleGhostIndex = mtcState.battleGhostIndex
  price : Affords mtcState.grade mutable.upgradeCoin mtcState.upgradeCoin

/-- The front is where the contract is. -/
structure Agrees (player : AccountId) (contract : Contract AccountId) (mtcState : WholeMtcState) :
    Prop where
  seed : contract.playerSeed player = some mtcState.seed
  immutable : playerMtcImmutable contract player = some (mtcState.pool, mtcState.ghosts)
  mutable : ∃ mutable, contract.playerMtcMutable player = some mutable ∧ Shows mutable mtcState

/-- What the shop relies on. -/
structure Playable (mtcState : WholeMtcState) : Prop where
  distinct : (mtcState.pool.map Mtc.Emo.id).Nodup
  small : mtcState.board.length ≤ u8Max
  positive : 1 ≤ mtcState.grade

/-- The front and the contract in a match of the player, with the emo bases
that the front has read.  In between, messages may do anything that leaves the
account and the bases alone. -/
inductive Together [DecidableEq AccountId] (chain : Chain AccountId) (emoBases : Bases)
    (player : AccountId) : Contract AccountId → WholeMtcState → Prop where
  | start {context : Context AccountId} {deckEmoBaseIds : List Nat}
      {before after : Contract AccountId} {mtcState : WholeMtcState}
      (reached : before.Reachable chain) (bases : before.emoBases = some emoBases)
      (caller : context.caller = player)
      (started : before.startMtc chain context deckEmoBaseIds = .ok after)
      (built : start after player = some mtcState) :
      Together chain emoBases player after mtcState
  | turn {context : Context AccountId} {fuel shopIds battleIds lastIds seed : Nat}
      {buttons : List Button} {last : ShopSession} {before after : Contract AccountId}
      {mtcState next : WholeMtcState}
      (earlier : Together chain emoBases player before mtcState)
      (caller : context.caller = player)
      (plays : PlaysShop (frontEnv chain emoBases) fuel mtcState shopIds buttons last)
      (accepted : before.finishMtcShop chain context fuel
        last.session.shopState.playerOperations = pure after)
      (read : after.playerSeed player = some seed)
      (goesOn : (mtcState.startBattle last seed).finishBattle (frontEnv chain emoBases) fuel
        battleIds = pure (next, none, lastIds)) :
      Together chain emoBases player after next
  | aside {before after : Contract AccountId} {mtcState : WholeMtcState}
      (earlier : Together chain emoBases player before mtcState)
      (executed : Contract.Executes chain before after)
      (kept : after.account player = before.account player)
      (bases : after.emoBases = before.emoBases) :
      Together chain emoBases player after mtcState

/-! ## The start -/

variable {player : AccountId} {contract : Contract AccountId} {mtcState : WholeMtcState}

theorem start_eq_some {mtcState : WholeMtcState} (built : start contract player = some mtcState) :
    ∃ mutable, contract.playerMtcMutable player = some mutable ∧
      contract.playerSeed player = some mtcState.seed ∧
      playerMtcImmutable contract player = some (mtcState.pool, mtcState.ghosts) ∧
      mtcState.toMtcState = buildInitialMtcState mutable.upgradeCoin ∧
      mutable.health = mtcState.health ∧ mutable.ghostStates = mtcState.ghostStates ∧
      mutable.battleGhostIndex = mtcState.battleGhostIndex := by
  simp only [start, Option.bind_eq_bind, Option.bind_eq_some_iff, Option.pure_def,
    Option.some.injEq] at built
  obtain ⟨seed, foundSeed, ⟨pool, ghosts⟩, foundImmutable, mutable, foundMutable, rfl⟩ := built
  exact ⟨mutable, foundMutable, foundSeed, foundImmutable, rfl, rfl, rfl, rfl⟩

theorem affords_self {grade : Nat} (lower : grade < Mtc.Shop.lastGrade) (price : Option Nat) :
    Affords grade price price :=
  fun coin shown => ⟨lower, coin, shown, le_rfl⟩

/-- Both prices fall with the turn. -/
theorem Affords.finishBattle {grade : Nat} {chainPrice price : Option Nat}
    (affords : Affords grade chainPrice price) :
    Affords grade (decreaseUpgradeCoin chainPrice) (price.map fun coin => max (coin - 1) 0) := by
  intro coin shown
  obtain ⟨before, rfl, rfl⟩ := Option.map_eq_some_iff.mp shown
  obtain ⟨lower, paid, rfl, le⟩ := affords before rfl
  refine ⟨lower, paid - 1, decreaseUpgradeCoin_eq (some paid), ?_⟩
  omega

/-- A match starts on both sides alike. -/
theorem start_agrees [DecidableEq AccountId] {chain : Chain AccountId} {emoBases : Bases}
    {context : Context AccountId} {deckEmoBaseIds : List Nat} {before after : Contract AccountId}
    (keyed : KeyedBases emoBases) (bases : before.emoBases = some emoBases)
    (started : before.startMtc chain context deckEmoBaseIds = .ok after)
    (built : start after context.caller = some mtcState) :
    Agrees context.caller after mtcState ∧ Playable mtcState := by
  obtain ⟨mutable, foundMutable, seed, immutable, opening, health, states, index⟩ :=
    start_eq_some built
  simp only [Contract.startMtc, Result.bind_eq_ok_iff, Result.pure_eq_ok_iff, okOr_eq_ok_iff,
    Contract.createOrUpdatePlayerEp_account] at started
  obtain ⟨_, _, stored, foundBases, fixed, _, listed, _, pool, builtPool, ghosts, _, rfl⟩ := started
  cases bases.symm.trans foundBases
  simp only [Function.update_self, Option.some.injEq] at foundMutable
  subst foundMutable
  have turn : mtcState.turn = 1 := congrArg MtcState.turn opening
  have board : mtcState.board = [] := congrArg MtcState.board opening
  have grade : mtcState.grade = 1 := congrArg MtcState.grade opening
  have price : mtcState.upgradeCoin = getUpgradeCoin 2 := congrArg MtcState.upgradeCoin opening
  refine ⟨⟨seed, immutable, _, Function.update_self .., ?_⟩, ?_⟩
  · refine ⟨turn, ?_, health, states, index, ?_⟩
    · rw [board, grade]
      rfl
    · rw [price, grade]
      exact affords_self (by decide) _
  · simp only [playerMtcImmutable, Function.update_self, Option.bind_eq_bind, Option.bind_some,
      Option.pure_def, Option.some.injEq, Prod.mk.injEq] at immutable
    refine ⟨?_, ?_, Nat.le_of_eq grade.symm⟩
    · rw [← immutable.1]
      simp only [buildPool, Result.bind_eq_ok_iff] at builtPool
      obtain ⟨_, _, looped⟩ := builtPool
      rw [(buildPoolLoop_numbers keyed looped).1]
      exact List.nodup_range'
    · rw [board]
      exact Nat.zero_le _

/-! ## The end of a battle -/

section Finishes

variable {env : Env} {fuel generatedIds last : Nat} {next : WholeMtcState}

theorem calcFinalPlace_bounds {health preHealth place : Nat}
    {ghostStates preGhostStates : List GhostState}
    (calculated : calcFinalPlace health preHealth ghostStates preGhostStates = .ok (some place)) :
    1 ≤ place ∧ place ≤ 1 + ghostStates.length := by
  have counted : ∀ (pairs : List (GhostState × GhostState)) (start place : Nat),
      pairs.foldlM (fun place states => if isAhead preHealth states then addU8 place 1
        else pure place) start = .ok place → start ≤ place ∧ place ≤ start + pairs.length := by
    intro pairs
    induction pairs with
    | nil =>
        intro start place folded
        cases folded
        exact ⟨le_rfl, le_rfl⟩
    | cons pair rest ih =>
        intro start place folded
        rw [List.foldlM_cons, Result.bind_eq_ok_iff] at folded
        obtain ⟨middle, first, folded⟩ := folded
        have later := ih middle place folded
        rw [List.length_cons]
        split at first
        · obtain ⟨_, rfl⟩ := addU8_eq_ok_iff.mp first
          omega
        · cases first
          omega
  unfold calcFinalPlace at calculated
  dsimp only at calculated
  split at calculated
  · split at calculated
    · cases calculated
      omega
    · simp only [Result.bind_eq_ok_iff, Result.pure_eq_ok_iff, Option.some.injEq] at calculated
      obtain ⟨_, folded, rfl⟩ := calculated
      have bounds := counted _ _ _ folded
      rw [List.length_zip] at bounds
      omega
  · cases calculated

/-- The place of a match that is over is one that has an EP. -/
theorem battleAll_place {board : Board} {health grade battleGhostIndex turn seed place
    healthAfter : Nat} {ghosts : List Ghost} {ghostStates statesAfter : List GhostState}
    (battled : battleAll env fuel board health ghostStates grade ghosts battleGhostIndex turn seed
      generatedIds = pure (some place, healthAfter, statesAfter, last)) :
    1 ≤ place ∧ place ≤ 1 + ghostStates.length := by
  rw [(battleAll_steps battled).2.1.length_eq]
  simp only [battleAll, Fueled.bind_eq_pure_iff, Fueled.of_eq_pure_iff, Fueled.pure_eq_pure_iff,
    Prod.mk.injEq] at battled
  obtain ⟨_, _, _, calculated, rfl, rfl, rfl, rfl⟩ := battled
  exact calcFinalPlace_bounds calculated

/-- How the battle of the front ends. -/
inductive Finishes (env : Env) (fuel : Nat) (mtcState : WholeMtcState) (generatedIds : Nat)
    (next : WholeMtcState) (last : Nat) : Option Nat → Prop where
  | ended {place health : Nat} {ghostStates : List GhostState}
      (battled : battleAll env fuel mtcState.board mtcState.health mtcState.ghostStates
        mtcState.grade mtcState.ghosts mtcState.battleGhostIndex mtcState.turn mtcState.seed
        generatedIds = pure (some place, health, ghostStates, last))
      (same : next = { mtcState with health, ghostStates }) :
      Finishes env fuel mtcState generatedIds next last (some place)
  | goesOn {health battleGhostIndex : Nat} {ghostStates : List GhostState}
      (battled : battleAll env fuel mtcState.board mtcState.health mtcState.ghostStates
        mtcState.grade mtcState.ghosts mtcState.battleGhostIndex mtcState.turn mtcState.seed
        generatedIds = pure (none, health, ghostStates, last))
      (selected : selectBattleGhostIndex env ghostStates mtcState.battleGhostIndex mtcState.seed =
        .ok battleGhostIndex)
      (same : next = { mtcState with
        health, ghostStates, battleGhostIndex
        toMtcState := Front.finishBattle mtcState.toMtcState }) :
      Finishes env fuel mtcState generatedIds next last none

theorem finishBattle_eq_pure_iff {place : Option Nat} :
    mtcState.finishBattle env fuel generatedIds = pure (next, place, last) ↔
      Finishes env fuel mtcState generatedIds next last place := by
  simp only [WholeMtcState.finishBattle, Fueled.bind_eq_pure_iff]
  constructor
  · intro finished
    obtain ⟨⟨finalPlace, health, ghostStates, ids⟩, battled, finished⟩ := finished
    cases finalPlace with
    | some finalPlace =>
        have positive : finalPlace ≠ 0 := Nat.ne_of_gt (battleAll_place battled).1
        simp only [Option.filter_some, decide_eq_true positive, if_true, Fueled.pure_eq_pure_iff,
          Prod.mk.injEq] at finished
        obtain ⟨rfl, rfl, rfl⟩ := finished
        exact .ended battled rfl
    | none =>
        simp only [Option.filter_none, Fueled.bind_eq_pure_iff, Fueled.of_eq_pure_iff,
          Fueled.pure_eq_pure_iff, Prod.mk.injEq] at finished
        obtain ⟨index, selected, rfl, rfl, rfl⟩ := finished
        exact .goesOn battled selected rfl
  · intro finishes
    cases finishes with
    | ended battled same =>
        have positive := Nat.ne_of_gt (battleAll_place battled).1
        refine ⟨_, battled, ?_⟩
        simp only [Option.filter_some, decide_eq_true positive, if_true, same]
    | goesOn battled selected same =>
        refine ⟨_, battled, ?_⟩
        simp only [Option.filter_none, Fueled.bind_eq_pure_iff, Fueled.of_eq_pure_iff]
        exact ⟨_, selected, by rw [same]⟩

end Finishes

/-! ## Turns -/

/-- What a turn comes to on both sides: the next state of the front, or an EP
that belongs to the place. -/
def Settles (player : AccountId) (before after : Contract AccountId) (next : WholeMtcState) :
    Option Nat → Prop
  | none => Agrees player after next
  | some place => after.playerMtcMutable player = none ∧
      ∃ oldEp newEp, before.playerEp player = some oldEp ∧ calcNewEp place oldEp = .ok newEp ∧
        after.playerEp player = some newEp

section Turns

variable {chain : Chain AccountId} {emoBases : Bases} {mutable : PlayerMutable}
variable {fuel shopIds battleIds newSeed : Nat} {buttons : List Button} {last : ShopSession}

theorem Shows.taken (shows : Shows mutable mtcState) (early : mtcState.turn < 40) :
    Game.getTurnAndPreviousGradeAndBoard mutable.gradeAndBoardHistory =
      .ok (mtcState.turn, mtcState.grade, mtcState.board) := by
  have turn := shows.turn
  have length : mutable.gradeAndBoardHistory.length % 256 + 1 = mtcState.turn := by omega
  have fits : mutable.gradeAndBoardHistory.length % 256 + 1 ≤ u8Max := by
    unfold u8Max
    omega
  simp only [Game.getTurnAndPreviousGradeAndBoard, Mtc.getTurnAndPreviousGradeAndBoard,
    Result.bind_eq_ok_iff, addU8_eq_ok_iff, ensure_eq_ok_iff, Result.pure_eq_ok_iff]
  exact ⟨_, ⟨_, ⟨fits, rfl⟩, rfl⟩, (), by rwa [length], by rw [length, shows.previous]⟩

/-- The contract accepts the shop and comes to the state of the front. -/
theorem PlaysShop.verified {chainPrice : Option Nat} (keyed : KeyedBases emoBases)
    (playable : Playable mtcState)
    (plays : PlaysShop (frontEnv chain emoBases) fuel mtcState shopIds buttons last)
    (price : Affords mtcState.grade chainPrice mtcState.upgradeCoin) :
    ∃ upgradeCoin, Mtc.Shop.verifyPlayerOperationsAndUpdate (contractEnv chain emoBases) fuel
        mtcState.board mtcState.grade chainPrice last.session.shopState.playerOperations
        mtcState.pool mtcState.seed mtcState.turn 0 =
          pure (last.session.mtcState.board, last.session.mtcState.grade, upgradeCoin) ∧
      Affords last.session.mtcState.grade upgradeCoin last.session.mtcState.upgradeCoin ∧
      last.session.mtcState.turn = mtcState.turn ∧
      ∀ seed, Playable (mtcState.startBattle last seed) := by
  obtain ⟨catalog, opened, started, follows, grown⟩ := @playShop_follows
    (contractEnv chain emoBases) _ true _ _ _ _ _ _ _ 0 keyed playable.distinct playable.small
    playable.positive price plays.played plays.solvent plays.room
  obtain ⟨upgradeCoin, verified, affords, turn, small⟩ := follows.verified started plays.few
  exact ⟨upgradeCoin, verified, affords, turn, fun _ => ⟨playable.distinct, small,
    playable.positive.trans grown⟩⟩

/-- The turn of the contract is the battle of the front. -/
theorem Agrees.playTurn_eq {context : Context AccountId} {upgradeCoin : Option Nat}
    {playerOperations : List PlayerOperation} {grade : Nat} {board : Board}
    (agrees : Agrees context.caller contract mtcState)
    (bases : contract.emoBases = some emoBases)
    (found : contract.playerMtcMutable context.caller = some mutable)
    (shows : Shows mutable mtcState) (early : mtcState.turn < 40)
    (origin : context.callerIsOrigin = true)
    (verified : Mtc.Shop.verifyPlayerOperationsAndUpdate (contractEnv chain emoBases) fuel
      mtcState.board mtcState.grade mutable.upgradeCoin playerOperations mtcState.pool
      mtcState.seed mtcState.turn 0 = pure (board, grade, upgradeCoin)) :
    contract.playTurn chain context fuel playerOperations = (do
      let newSeed := chain.hashEncoded "finish_mtc_shop" context.caller context.blockTimestamp
      let (finalPlace, health, ghostStates, _) ← battleAll (contractEnv chain emoBases) fuel board
        mtcState.health mtcState.ghostStates grade mtcState.ghosts mtcState.battleGhostIndex
        mtcState.turn newSeed 0
      return { emoBases, grade, board, newSeed, finalPlace
               mutable := { mutable with upgradeCoin, health, ghostStates } }) := by
  have immutable := agrees.immutable
  simp only [playerMtcImmutable, Option.bind_eq_bind, Option.bind_eq_some_iff, Option.pure_def,
    Option.some.injEq, Prod.mk.injEq] at immutable
  obtain ⟨immutable, foundImmutable, pool, ghosts⟩ := immutable
  have seeded : Contract.getInsecureRandomSeed chain context context.caller "finish_mtc_shop" =
      .ok (chain.hashEncoded "finish_mtc_shop" context.caller context.blockTimestamp) := by
    simp only [Contract.getInsecureRandomSeed, ensure, if_pos origin]
    rfl
  have of_ok : ∀ {α : Type} (value : α), Fueled.of (.ok value) = pure value := fun _ => rfl
  simp only [Contract.playTurn, bases, foundImmutable, found, agrees.seed, seeded, okOr, of_ok,
    pure_bind, shows.taken early, pool, verified, ghosts, shows.health, shows.ghostStates,
    shows.battleGhostIndex]

variable [DecidableEq AccountId]

theorem calcNewEp_succeeds {place : Nat} (lower : 1 ≤ place) (upper : place ≤ 4) (oldEp : Nat) :
    Succeeds (calcNewEp place oldEp) := by
  rcases (by omega : place = 1 ∨ place = 2 ∨ place = 3 ∨ place = 4) with
    rfl | rfl | rfl | rfl
  all_goals exact succeeds_pure _

/-- What holds of both sides between the turns. -/
structure InStep (chain : Chain AccountId) (emoBases : Bases) (player : AccountId)
    (contract : Contract AccountId) (mtcState : WholeMtcState) : Prop where
  agrees : Agrees player contract mtcState
  playable : Playable mtcState
  bases : contract.emoBases = some emoBases
  reached : contract.Reachable chain

/-- What the contract has of a turn when the battles that the front shows have
ended. -/
def WholeMtcState.outcome (shown : WholeMtcState) (emoBases : Bases) (mutable : PlayerMutable)
    (upgradeCoin : Option Nat) (ending : Option Nat × Nat × List GhostState × Nat) :
    TurnOutcome where
  emoBases := emoBases
  grade := shown.grade
  board := shown.board
  newSeed := shown.seed
  mutable := { mutable with upgradeCoin, health := ending.2.1, ghostStates := ending.2.2.1 }
  finalPlace := ending.1

/-- What the contract stores of a turn that the front has played. -/
theorem InStep.finishMtcShop_account {context : Context AccountId}
    (inStep : InStep chain emoBases context.caller contract mtcState) (keyed : KeyedBases emoBases)
    (origin : context.callerIsOrigin = true) (early : mtcState.turn < 40)
    (plays : PlaysShop (frontEnv chain emoBases) fuel mtcState shopIds buttons last) :
    ∃ mutable upgradeCoin, contract.playerMtcMutable context.caller = some mutable ∧
      Shows mutable mtcState ∧
      Affords last.session.mtcState.grade upgradeCoin last.session.mtcState.upgradeCoin ∧
      last.session.mtcState.turn = mtcState.turn ∧
      (∀ seed, Playable (mtcState.startBattle last seed)) ∧
      (fun after => after.account context.caller) <$> contract.finishMtcShop chain context fuel
          last.session.shopState.playerOperations = (do
        let shown := mtcState.startBattle last
          (chain.hashEncoded "finish_mtc_shop" context.caller context.blockTimestamp)
        let ending ← battleAll (contractEnv chain emoBases) fuel shown.board shown.health
          shown.ghostStates shown.grade shown.ghosts shown.battleGhostIndex shown.turn shown.seed 0
        Fueled.of (Contract.storeTurn chain.sampler
          (shown.outcome emoBases mutable upgradeCoin ending)
          (contract.account context.caller))) := by
  obtain ⟨mutable, found, shows⟩ := inStep.agrees.mutable
  obtain ⟨upgradeCoin, verified, affords, turn, playable⟩ :=
    plays.verified keyed inStep.playable shows.price
  have played := inStep.agrees.playTurn_eq inStep.bases found shows early origin verified
  refine ⟨mutable, upgradeCoin, found, shows, affords, turn, playable, ?_⟩
  rw [Contract.finishMtcShop_account inStep.reached.leaderboardOrdered, played]
  simp only [bind_assoc, pure_bind, WholeMtcState.startBattle, WholeMtcState.outcome, turn]

/-- When the contract accepts the turn, the battle of the front ends as well,
with the same outcome. -/
theorem InStep.accepted {context : Context AccountId} {after : Contract AccountId}
    (inStep : InStep chain emoBases context.caller contract mtcState) (keyed : KeyedBases emoBases)
    (origin : context.callerIsOrigin = true) (early : mtcState.turn < 40)
    (plays : PlaysShop (frontEnv chain emoBases) fuel mtcState shopIds buttons last)
    (accepted : contract.finishMtcShop chain context fuel last.session.shopState.playerOperations =
      pure after) (battleIds : Nat) :
    ∃ next place lastIds, Finishes (frontEnv chain emoBases) fuel (mtcState.startBattle last
        (chain.hashEncoded "finish_mtc_shop" context.caller context.blockTimestamp)) battleIds
        next lastIds place ∧
      after.playerSeed context.caller =
        some (chain.hashEncoded "finish_mtc_shop" context.caller context.blockTimestamp) ∧
      Settles context.caller contract after next place ∧ (place = none → Playable next) := by
  obtain ⟨mutable, upgradeCoin, found, shows, affords, turn, playable, stored⟩ :=
    inStep.finishMtcShop_account keyed origin early plays
  obtain ⟨ep, seed, foundEp, foundSeed⟩ :=
    (inStep.reached.accounts context.caller).ep_and_seed found
  rw [accepted, map_pure, eq_comm] at stored
  simp only [Fueled.bind_eq_pure_iff, Fueled.of_eq_pure_iff] at stored
  obtain ⟨⟨finalPlace, health, ghostStates, lastIds⟩, battled, storing⟩ := stored
  obtain ⟨used, _, front⟩ := Battle.battleAll_elsewhere true battleIds battled
  cases finalPlace with
  | some place =>
      simp only [Contract.storeTurn, WholeMtcState.outcome, foundEp, Result.bind_eq_ok_iff,
        okOr_eq_ok_iff, Result.pure_eq_ok_iff] at storing
      obtain ⟨_, same, newEp, calculated, account⟩ := storing
      cases same
      refine ⟨_, _, _, .ended front rfl, (congrArg Account.seed account).symm,
        ⟨(congrArg Account.mutable account).symm, ep, newEp, foundEp, calculated,
          (congrArg Account.ep account).symm⟩, fun none => by cases none⟩
  | none =>
      simp only [Contract.storeTurn, WholeMtcState.outcome, updatePlayerMtcMutableAfterBattle,
        Result.bind_eq_ok_iff, Result.pure_eq_ok_iff] at storing
      obtain ⟨_, ⟨index, selected, rfl⟩, account⟩ := storing
      rw [shows.battleGhostIndex] at selected
      have newSeed := (congrArg Account.seed account).symm
      have kept : after.playerMtcImmutable context.caller =
          contract.playerMtcImmutable context.caller := (congrArg Account.immutable account).symm
      have next := (congrArg Account.mutable account).symm
      have startedNext := playable (chain.hashEncoded "finish_mtc_shop" context.caller
        context.blockTimestamp)
      refine ⟨_, _, _, .goesOn front selected rfl, newSeed, ⟨newSeed, ?_, _, next, ?_⟩,
        fun _ => ⟨startedNext.distinct, startedNext.small, startedNext.positive⟩⟩
      · rw [playerMtcImmutable, kept]
        exact inStep.agrees.immutable
      · refine ⟨?_, ?_, rfl, rfl, rfl, affords.finishBattle⟩
        · rw [List.length_append, List.length_singleton, ← shows.turn, ← turn]
          rfl
        · rw [List.getLast?_concat]
          rfl

/-- When the battle of the front ends, the contract accepts the turn. -/
theorem InStep.accepts {context : Context AccountId} {next : WholeMtcState} {lastIds : Nat}
    {place : Option Nat}
    (inStep : InStep chain emoBases context.caller contract mtcState) (keyed : KeyedBases emoBases)
    (origin : context.callerIsOrigin = true) (early : mtcState.turn < 40)
    (plays : PlaysShop (frontEnv chain emoBases) fuel mtcState shopIds buttons last)
    (finishes : Finishes (frontEnv chain emoBases) fuel (mtcState.startBattle last
      (chain.hashEncoded "finish_mtc_shop" context.caller context.blockTimestamp)) battleIds next
      lastIds place) :
    ∃ after, contract.finishMtcShop chain context fuel last.session.shopState.playerOperations =
      pure after := by
  obtain ⟨mutable, upgradeCoin, found, shows, affords, turn, playable, stored⟩ :=
    inStep.finishMtcShop_account keyed origin early plays
  have state := inStep.reached.accounts context.caller
  obtain ⟨ep, seed, foundEp, foundSeed⟩ := state.ep_and_seed found
  let shown := mtcState.startBattle last
    (chain.hashEncoded "finish_mtc_shop" context.caller context.blockTimestamp)
  have stores : ∀ {ending}, battleAll (contractEnv chain emoBases) fuel shown.board shown.health
      shown.ghostStates shown.grade shown.ghosts shown.battleGhostIndex shown.turn shown.seed 0 =
        pure ending →
      Succeeds (Contract.storeTurn chain.sampler (shown.outcome emoBases mutable upgradeCoin ending)
        (contract.account context.caller)) →
      ∃ after, contract.finishMtcShop chain context fuel
        last.session.shopState.playerOperations = pure after := by
    intro ending battled stores
    obtain ⟨account, storing⟩ := stores
    have played := stored.trans (Fueled.bind_eq_pure_iff.mpr
      ⟨ending, battled, Fueled.of_eq_pure_iff.mpr storing⟩)
    obtain ⟨after, accepted, _⟩ := Fueled.map_eq_pure_iff.mp played
    exact ⟨after, accepted⟩
  cases finishes with
  | @ended place health ghostStates battled same =>
      obtain ⟨used, _, onChain⟩ := Battle.battleAll_elsewhere false 0 battled
      have immutable := inStep.agrees.immutable
      simp only [playerMtcImmutable, Option.bind_eq_bind, Option.bind_eq_some_iff] at immutable
      obtain ⟨immutable, foundImmutable, _⟩ := immutable
      have ready : MatchReady immutable mutable := state.ready foundImmutable found
      have states : mtcState.ghostStates.length = 3 := by rw [← shows.ghostStates, ready.states]
      obtain ⟨lower, upper⟩ := battleAll_place battled
      simp only [WholeMtcState.startBattle, states] at upper
      refine stores onChain ?_
      simp only [Contract.storeTurn, WholeMtcState.outcome, foundEp]
      exact succeeds_bind_iff.mpr ⟨ep, rfl, succeeds_bind_iff.mpr
        ((calcNewEp_succeeds lower upper ep).imp fun _ calculated =>
          ⟨calculated, succeeds_pure _⟩)⟩
  | @goesOn health battleGhostIndex ghostStates battled selected same =>
      obtain ⟨used, _, onChain⟩ := Battle.battleAll_elsewhere false 0 battled
      have index : shown.battleGhostIndex = mutable.battleGhostIndex := shows.battleGhostIndex.symm
      refine stores onChain ?_
      rw [index] at selected
      simp only [Contract.storeTurn, WholeMtcState.outcome, updatePlayerMtcMutableAfterBattle]
      exact succeeds_bind_iff.mpr ⟨_, Result.bind_eq_ok_iff.mpr ⟨_, selected, rfl⟩,
        succeeds_pure _⟩

/-! ## Whole matches -/

/-- The contract accepts nothing from other contracts or after 39 turns. -/
theorem InStep.origin_and_early {context : Context AccountId} {after : Contract AccountId}
    {playerOperations : List PlayerOperation}
    (inStep : InStep chain emoBases context.caller contract mtcState)
    (accepted : contract.finishMtcShop chain context fuel playerOperations = pure after) :
    context.callerIsOrigin = true ∧ mtcState.turn < 40 := by
  obtain ⟨mutable, found, shows⟩ := inStep.agrees.mutable
  have state := inStep.reached.accounts context.caller
  simp only [Contract.finishMtcShop, Fueled.bind_eq_pure_iff, Fueled.of_eq_pure_iff,
    okOr_eq_ok_iff] at accepted
  obtain ⟨_, _, immutable, foundImmutable, _, foundMutable, ⟨turn, _, _⟩, taken, _, _, _, _,
    newSeed, seeded, _⟩ := accepted
  cases found.symm.trans foundMutable
  have ready : MatchReady immutable mutable := state.ready foundImmutable found
  obtain ⟨rfl, early⟩ := Contract.getTurn_eq ready.history taken
  simp only [Contract.getInsecureRandomSeed, Result.bind_eq_ok_iff, ensure_eq_ok_iff] at seeded
  exact ⟨seeded.choose_spec.1, shows.turn ▸ early⟩

theorem finishMtcShop_emoBases {context : Context AccountId} {before after : Contract AccountId}
    {playerOperations : List PlayerOperation}
    (accepted : before.finishMtcShop chain context fuel playerOperations = pure after) :
    after.emoBases = before.emoBases := by
  obtain ⟨_, _, _, _, ⟨_, stored, _, finished, rfl⟩ | ⟨_, _, rfl⟩⟩ :=
    Contract.finishMtcShop_cases accepted
  · have kept := Contract.finishMtc_emoBases finished
    exact kept
  · rfl

/-- The front and the contract stay in step. -/
theorem Together.inStep {player : AccountId}
    (together : Together chain emoBases player contract mtcState) (keyed : KeyedBases emoBases) :
    InStep chain emoBases player contract mtcState := by
  induction together with
  | start reached bases caller started built =>
      subst caller
      obtain ⟨agrees, playable⟩ := start_agrees keyed bases started built
      refine ⟨agrees, playable, ?_, ?_⟩
      · obtain ⟨_, _, _, rfl⟩ := Contract.startMtc_cases started
        exact bases
      · obtain ⟨deployer, messages⟩ := reached
        exact ⟨deployer, messages.tail ⟨_, 0, .startMtc _, Fueled.of_eq_pure_iff.mpr started⟩⟩
  | turn earlier caller plays accepted read goesOn ih =>
      subst caller
      obtain ⟨origin, early⟩ := ih.origin_and_early accepted
      obtain ⟨next, place, lastIds, finishes, newSeed, settles, playable⟩ :=
        ih.accepted keyed origin early plays accepted _
      cases read.symm.trans newSeed
      have same := finishBattle_eq_pure_iff.mpr finishes
      rw [goesOn, Fueled.pure_eq_pure_iff, Prod.mk.injEq, Prod.mk.injEq] at same
      obtain ⟨rfl, rfl, rfl⟩ := same
      refine ⟨settles, playable rfl, (finishMtcShop_emoBases accepted).trans ih.bases, ?_⟩
      obtain ⟨deployer, messages⟩ := ih.reached
      exact ⟨deployer, messages.tail ⟨_, _, .finishMtcShop _, accepted⟩⟩
  | aside earlier executed kept bases ih =>
      simp only [Contract.account, Account.mk.injEq] at kept
      obtain ⟨_, sameSeed, sameImmutable, sameMutable⟩ := kept
      refine ⟨⟨?_, ?_, ?_⟩, ih.playable, bases.trans ih.bases, ?_⟩
      · rw [sameSeed]
        exact ih.agrees.seed
      · rw [playerMtcImmutable, sameImmutable]
        exact ih.agrees.immutable
      · rw [sameMutable]
        exact ih.agrees.mutable
      · obtain ⟨deployer, messages⟩ := ih.reached
        exact ⟨deployer, messages.tail executed⟩

/-- In every match the front shows what the contract has stored.  The contract
accepts the turn of the shop exactly if the battle of the front ends, and then
both have the same outcome. -/
theorem front_agrees_with_contract {player : AccountId} (keyed : KeyedBases emoBases)
    (together : Together chain emoBases player contract mtcState) :
    Agrees player contract mtcState ∧
    ∀ (context : Context AccountId) (fuel shopIds battleIds : Nat) (buttons : List Button)
      (last : ShopSession), context.caller = player → context.callerIsOrigin = true →
      mtcState.turn < 40 →
      PlaysShop (frontEnv chain emoBases) fuel mtcState shopIds buttons last →
      let newSeed := chain.hashEncoded "finish_mtc_shop" player context.blockTimestamp
      let turn := contract.finishMtcShop chain context fuel
        last.session.shopState.playerOperations
      let battle := (mtcState.startBattle last newSeed).finishBattle (frontEnv chain emoBases) fuel
        battleIds
      ((∃ after, turn = pure after) ↔ ∃ ending, battle = pure ending) ∧
      ∀ after next place lastIds, turn = pure after → battle = pure (next, place, lastIds) →
        after.playerSeed player = some newSeed ∧ Settles player contract after next place := by
  have inStep := together.inStep keyed
  refine ⟨inStep.agrees, fun context fuel shopIds battleIds buttons last caller origin early plays =>
    ?_⟩
  subst caller
  intro newSeed turn battle
  constructor
  · constructor
    · intro accepts
      obtain ⟨after, accepted⟩ := accepts
      obtain ⟨_, _, _, finishes, _⟩ := inStep.accepted keyed origin early plays accepted battleIds
      exact ⟨_, finishBattle_eq_pure_iff.mpr finishes⟩
    · intro ends
      obtain ⟨⟨next, place, lastIds⟩, ended⟩ := ends
      exact inStep.accepts keyed origin early plays (finishBattle_eq_pure_iff.mp ended)
  · intro after next place lastIds accepted ended
    obtain ⟨_, _, _, finishes, seeded, settles, _⟩ :=
      inStep.accepted keyed origin early plays accepted battleIds
    have same := ended.symm.trans (finishBattle_eq_pure_iff.mpr finishes)
    rw [Fueled.pure_eq_pure_iff, Prod.mk.injEq, Prod.mk.injEq] at same
    obtain ⟨rfl, rfl, rfl⟩ := same
    exact ⟨seeded, settles⟩

end Turns

namespace FirstTurn

def chain : Chain Nat := { sampler := .first, hashEncoded := fun _ _ time => time }

def context : Context Nat := ⟨0, true, 1, 5⟩

def bases : Bases := fun id =>
  if id < 12 then some ⟨id, .human, id % 6 + 1, 1, 1, []⟩ else none

def stored : Contract Nat :=
  { admins := [0]
    emoBases := some bases
    deckFixedEmoBaseIds := some [6, 7, 8, 9, 10, 11]
    deckBuiltEmoBaseIds := some [0, 1, 2, 3, 4, 5] }

def buttons : List Button := [.buy ⟨35, 6⟩, .set 0]

/-- The state that the front starts with. -/
def started : Option WholeMtcState :=
  (Fueled.of (stored.startMtc chain context [0, 1, 2, 3, 4, 5])).value?.bind (start · 0)

def shop (mtcState : WholeMtcState) : Option ShopSession :=
  playShop (frontEnv chain bases) 20 mtcState.seed mtcState.pool mtcState.toMtcState 7 buttons

theorem keyed : KeyedBases bases := by
  intro id base found
  dsimp only [bases] at found
  split at found
  · cases found
    rfl
  · cases found

end FirstTurn

open FirstTurn in
/-- A first turn that buys an emo and sets it. -/
theorem exists_firstTurn :
    ∃ (contract : Contract Nat) (mtcState : WholeMtcState) (last : ShopSession)
      (next : WholeMtcState) (lastIds : Nat),
      started = some mtcState ∧ shop mtcState = some last ∧
      Together chain bases 0 contract mtcState ∧ mtcState.turn = 1 ∧
      PlaysShop (frontEnv chain bases) 20 mtcState 7 buttons last ∧
      last.session.shopState.playerOperations = [.buy 35 0] ∧
      (mtcState.startBattle last (chain.hashEncoded "finish_mtc_shop" 0 5)).finishBattle
        (frontEnv chain bases) 20 9 = pure (next, none, lastIds) ∧
      next.turn = 2 ∧ next.board.map BoardEmo.mtcEmoIds = [[35]] := by
  have storing : (Contract.new 0).execute chain context 0
      (.updateEmoBases bases [6, 7, 8, 9, 10, 11] [0, 1, 2, 3, 4, 5] true) = pure stored := rfl
  have starting : started.any fun mtcState =>
        mtcState.turn = 1 ∧ (shop mtcState).any fun last =>
          last.session.generatedIds = 8 ∧ last.session.shopState.playerOperations = [.buy 35 0] ∧
          (∀ done ∈ buttons.inits, ∀ shop ∈ playShop (frontEnv chain bases) 20 mtcState.seed
            mtcState.pool mtcState.toMtcState 7 done, (shop.selectedCatalogLineEmo.isSome →
              (emoBuyCoin : Int) ≤ shop.session.shopState.coin) ∧
            shop.session.shopState.coin < u8Max) ∧
          ((mtcState.startBattle last 5).finishBattle (frontEnv chain bases) 20 9).value?.any
            fun ending => ending.2.1 = none ∧ ending.1.turn = 2 ∧
              ending.1.board.map BoardEmo.mtcEmoIds = [[35]] := by
    decide +kernel
  obtain ⟨mtcState, startedAt, found⟩ := (Option.any_eq_true _ _).mp starting
  simp only [decide_eq_true_eq] at found
  obtain ⟨turn, found⟩ := found
  obtain ⟨last, played, found⟩ := (Option.any_eq_true _ _).mp found
  simp only [decide_eq_true_eq] at found
  obtain ⟨ids, operations, checked, found⟩ := found
  obtain ⟨⟨next, place, lastIds⟩, ended, found⟩ := Fueled.exists_of_value? found
  simp only [decide_eq_true_eq] at found
  obtain ⟨rfl, nextTurn, board⟩ := found
  obtain ⟨contract, started, built⟩ := Option.bind_eq_some_iff.mp startedAt
  have plays : PlaysShop (frontEnv chain bases) 20 mtcState 7 buttons last := by
    refine ⟨played, fun done shop before reached => ?_, by rw [ids]; decide,
      by rw [operations]; decide⟩
    obtain ⟨reserved, below⟩ := checked done ((List.mem_inits done buttons).mpr before) shop reached
    exact ⟨reserved, below⟩
  have together : Together chain bases 0 contract mtcState :=
    @Together.start _ _ _ _ _ context _ stored _ _
      ⟨0, Relation.ReflTransGen.single ⟨context, 0, _, storing⟩⟩ rfl rfl
      (Fueled.of_eq_pure_iff.mp (Fueled.value?_eq_some_iff.mp started)) built
  exact ⟨contract, mtcState, last, next, lastIds, startedAt, played, together, turn, plays,
    operations, ended, nextTurn, board⟩

/-- The contract accepts that turn. -/
theorem front_agrees_with_contract_first :
    ∃ (chain : Chain Nat) (emoBases : Bases) (contract after : Contract Nat)
      (mtcState next : WholeMtcState), Together chain emoBases 0 contract mtcState ∧
      contract.finishMtcShop chain ⟨0, true, 1, 5⟩ 20 [.buy 35 0] = pure after ∧
      Agrees 0 after next ∧ next.turn = 2 ∧ next.board.map BoardEmo.mtcEmoIds = [[35]] := by
  obtain ⟨contract, mtcState, last, next, lastIds, _, _, together, turn, plays, operations, ended,
    nextTurn, board⟩ := exists_firstTurn
  obtain ⟨_, turns⟩ := front_agrees_with_contract FirstTurn.keyed together
  obtain ⟨accepts, outcome⟩ := turns ⟨0, true, 1, 5⟩ 20 7 9 _ last rfl rfl (by omega) plays
  obtain ⟨after, accepted⟩ := accepts.mpr ⟨_, ended⟩
  obtain ⟨_, agrees⟩ := outcome after next none lastIds accepted ended
  rw [operations] at accepted
  exact ⟨_, _, contract, after, mtcState, next, together, accepted, agrees, nextTurn, board⟩

end EmojiBattler.Front
