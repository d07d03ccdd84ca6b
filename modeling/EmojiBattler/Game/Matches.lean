import EmojiBattler.Library.Positions
import EmojiBattler.Game.Contract

/-! # The matches in the storage

An account either plays no match or plays one that is ready for its next
turn. -/

namespace EmojiBattler.Game

open EmojiBattler.Emo EmojiBattler.Mtc EmojiBattler.Mtc.Storage
open Sampling
open Function (update)

/-! ## The states of the ghosts -/

/-- What a turn does to the state of a ghost. -/
inductive GhostStep (turn : Nat) : GhostState → GhostState → Prop where
  | same (state : GhostState) : GhostStep turn state state
  | damaged {before after : Nat} (alive : after ≠ 0) :
      GhostStep turn (.active before) (.active after)
  | retired {before : Nat} : GhostStep turn (.active before) (.retired turn)

abbrev GhostSteps (turn : Nat) : List GhostState → List GhostState → Prop :=
  List.Forall₂ (GhostStep turn)

theorem GhostSteps.refl (turn : Nat) (states : List GhostState) : GhostSteps turn states states :=
  List.forall₂_same.mpr fun state _ => .same state

theorem GhostSteps.set {turn index : Nat} {before after : List GhostState}
    {state changed : GhostState} (steps : GhostSteps turn before after)
    (found : before[index]? = some state) (step : GhostStep turn state changed) :
    GhostSteps turn before (after.set index changed) := by
  induction steps generalizing index with
  | nil => cases found
  | cons head _ ih =>
      cases index with
      | zero =>
          cases found
          exact .cons step ‹_›
      | succ index => exact .cons head (ih found)

variable {env : Env}

theorem damageHealth_le {boardGrade grade health damaged : Nat}
    (performed : damageHealth boardGrade grade health = .ok damaged) : damaged ≤ health := by
  unfold damageHealth at performed
  split at performed
  · simp only [Result.bind_eq_ok_iff, Result.pure_eq_ok_iff] at performed
    obtain ⟨_, _, rfl⟩ := performed
    exact Nat.sub_le _ _
  · cases performed
    exact Nat.le_refl _

theorem damageGhostHealth_step {boardGrade grade turn : Nat} {state damaged : GhostState}
    (performed : damageGhostHealth boardGrade grade state turn = .ok damaged) :
    GhostStep turn state damaged := by
  cases state with
  | active health =>
      simp only [damageGhostHealth, Result.bind_eq_ok_iff, Result.pure_eq_ok_iff] at performed
      obtain ⟨after, _, rfl⟩ := performed
      split
      · exact .retired
      · rename_i alive
        exact .damaged alive
  | retired finalTurn =>
      cases performed
      exact .same _

theorem battlePvg_step {fuel grade health damaged turn seed generatedIds last : Nat}
    {board : Board} {state after : GhostState} {history : List GradeAndGhostBoard}
    (battled : battlePvg env fuel grade health board state history turn seed generatedIds =
      pure (damaged, after, last)) : damaged ≤ health ∧ GhostStep turn state after := by
  simp only [battlePvg, Fueled.bind_eq_pure_iff, Fueled.of_eq_pure_iff, Fueled.pure_eq_pure_iff,
    Prod.mk.injEq] at battled
  obtain ⟨_, _, _, _, _, ghostDamaged, _, playerDamaged, rfl, rfl, _⟩ := battled
  exact ⟨damageHealth_le playerDamaged, damageGhostHealth_step ghostDamaged⟩

theorem battleGvg_step {fuel turn seed generatedIds last : Nat}
    {state0 state1 after0 after1 : GhostState} {history0 history1 : List GradeAndGhostBoard}
    (battled : battleGvg env fuel state0 history0 state1 history1 turn seed generatedIds =
      pure (after0, after1, last)) : GhostStep turn state0 after0 ∧ GhostStep turn state1 after1 := by
  simp only [battleGvg, Fueled.bind_eq_pure_iff, Fueled.of_eq_pure_iff, Fueled.pure_eq_pure_iff,
    Prod.mk.injEq] at battled
  obtain ⟨_, _, _, _, _, _, _, damaged0, _, damaged1, rfl, rfl, _⟩ := battled
  exact ⟨damageGhostHealth_step damaged0, damageGhostHealth_step damaged1⟩

/-- Every ghost set holds the state at its place. -/
theorem buildGhostSets_places {ghosts : List Ghost} {states : List GhostState} {index : Nat}
    {sets : List (Ghost × GhostState × Nat)} (built : buildGhostSets ghosts states index = .ok sets) :
    ∀ ghost state place, (ghost, state, place) ∈ sets → states[place]? = some state := by
  have zipped : ∀ ghost state place, (ghost, state, place) ∈ ghosts.zip states.zipIdx →
      states[place]? = some state := by
    intro ghost state place member
    exact List.mem_zipIdx_iff_getElem?.mp (List.of_mem_zip member).2
  unfold buildGhostSets at built
  split at built
  · intro ghost state place member
    exact zipped ghost state place ((swapElements_perm built).subset member)
  · cases built
    exact zipped

theorem battleGhosts_steps {fuel grade health damaged index turn seed generatedIds last : Nat}
    {board : Board} {ghosts : List Ghost} {states after : List GhostState}
    (battled : battleGhosts env fuel board grade health ghosts states index turn seed
      generatedIds = pure (damaged, after, last)) :
    damaged ≤ health ∧ GhostSteps turn states after := by
  unfold battleGhosts at battled
  split at battled
  · simp only [battlePvgAndGvg, Fueled.bind_eq_pure_iff, Fueled.of_eq_pure_iff] at battled
    obtain ⟨sets, built, battled⟩ := battled
    have places := buildGhostSets_places built
    rcases sets with _ | ⟨⟨ghost0, state0, place0⟩, _ | ⟨⟨ghost1, state1, place1⟩,
      _ | ⟨⟨ghost2, state2, place2⟩, _⟩⟩⟩
    · cases battled
    · cases battled
    · cases battled
    · simp only [Fueled.bind_eq_pure_iff, Fueled.pure_eq_pure_iff, Prod.mk.injEq] at battled
      obtain ⟨⟨_, after0, _⟩, pvg, ⟨after1, after2, _⟩, gvg, rfl, rfl, _⟩ := battled
      obtain ⟨lower, step0⟩ := battlePvg_step pvg
      obtain ⟨step1, step2⟩ := battleGvg_step gvg
      refine ⟨lower, ?_⟩
      exact (((GhostSteps.refl turn states).set (places ghost0 _ _ (by simp)) step0).set
        (places ghost1 _ _ (by simp)) step1).set (places ghost2 _ _ (by simp)) step2
  · simp only [battleLastGhost, Fueled.bind_eq_pure_iff, Fueled.of_eq_pure_iff, okOr_eq_ok_iff,
      Fueled.pure_eq_pure_iff, Prod.mk.injEq] at battled
    obtain ⟨⟨state, place⟩, found, ghost, _, ⟨_, changed, _⟩, pvg, rfl, rfl, _⟩ := battled
    obtain ⟨lower, step⟩ := battlePvg_step pvg
    have placed := List.mem_zipIdx_iff_getElem?.mp (List.mem_of_find?_eq_some found)
    exact ⟨lower, (GhostSteps.refl turn states).set placed step⟩

/-- A match goes on only when the player and a ghost are alive. -/
theorem battleAll_steps {fuel grade health damaged index turn seed generatedIds last : Nat}
    {board : Board} {ghosts : List Ghost} {states after : List GhostState}
    {finalPlace : Option Nat}
    (battled : battleAll env fuel board health states grade ghosts index turn seed generatedIds =
      pure (finalPlace, damaged, after, last)) :
    damaged ≤ health ∧ GhostSteps turn states after ∧
      (finalPlace = none → damaged ≠ 0) := by
  simp only [battleAll, Fueled.bind_eq_pure_iff, Fueled.of_eq_pure_iff, Fueled.pure_eq_pure_iff,
    Prod.mk.injEq] at battled
  obtain ⟨⟨_, _, _⟩, ghostsBattled, place, calculated, rfl, rfl, rfl, _⟩ := battled
  obtain ⟨lower, steps⟩ := battleGhosts_steps ghostsBattled
  refine ⟨lower, steps, fun unfinished dead => ?_⟩
  dsimp only at unfinished dead calculated
  subst unfinished
  unfold calcFinalPlace at calculated
  rw [if_pos (Or.inl dead)] at calculated
  split at calculated
  · cases calculated
  · simp only [Result.bind_eq_ok_iff, Result.pure_eq_ok_iff] at calculated
    obtain ⟨_, _, absurd⟩ := calculated
    cases absurd

theorem selectBattleGhostIndex_active {states : List GhostState} {previous seed index : Nat}
    (selected : selectBattleGhostIndex env states previous seed = .ok index) :
    (∃ health, states[index]? = some (.active health)) ∧
      (2 ≤ (states.filter GhostState.isActive).length → index ≠ previous) := by
  simp only [selectBattleGhostIndex, Result.bind_eq_ok_iff, zipU8_eq_ok_iff] at selected
  obtain ⟨_, ⟨_, rfl⟩, _, _, selected⟩ := selected
  have active : ∀ index, index ∈ (states.zipIdx.filter fun entry => entry.1.isActive).map
      Prod.snd → ∃ health, states[index]? = some (.active health) := by
    intro index member
    obtain ⟨state, found, alive⟩ := Positions.mem_filter_zipIdx.mp member
    cases state with
    | active health => exact ⟨health, found⟩
    | retired finalTurn => cases alive
  rw [Positions.length_filter_zipIdx] at selected
  split at selected
  · rename_i single
    rw [okOr_eq_ok_iff] at selected
    exact ⟨active index (List.mem_of_getElem? selected), fun several => by omega⟩
  · rw [okOr_eq_ok_iff] at selected
    obtain ⟨member, other⟩ := List.mem_filter.mp (Sampler.chooseFrom_mem selected)
    exact ⟨active index member, fun _ => of_decide_eq_true other⟩

/-! ## The chosen ghosts -/

theorem mapM_length {f : α → Result β} {values : List α} {results : List β}
    (mapped : values.mapM f = .ok results) : results.length = values.length := by
  induction values generalizing results with
  | nil =>
      cases mapped
      rfl
  | cons value rest ih =>
      simp only [List.mapM_cons, Result.bind_eq_ok_iff, Result.pure_eq_ok_iff] at mapped
      obtain ⟨_, _, tail, mapped, rfl⟩ := mapped
      rw [List.length_cons, List.length_cons, ih mapped]

theorem chooseFromGhostsInfos_length {A : Type} {sampler : Sampler}
    {getGhost : Nat × Nat → Option Ghost} {infos : List (Nat × List A)}
    {choosen all : List (A × Ghost)} {rng next : sampler.Rng} (few : choosen.length ≤ ghostCount)
    (performed : chooseFromGhostsInfos sampler getGhost infos choosen rng = .ok (all, next)) :
    all.length ≤ ghostCount := by
  induction infos generalizing choosen rng with
  | nil =>
      cases performed
      exact few
  | cons info rest ih =>
      simp only [chooseFromGhostsInfos, Result.bind_eq_ok_iff] at performed
      obtain ⟨indexed, _, ghosts, mapped, performed⟩ := performed
      refine ih ?_ performed
      rw [List.length_append, mapM_length mapped, Sampler.chooseMultipleFrom_length]
      omega

theorem chooseGhosts_length {A : Type} {sampler : Sampler} {ep seed : Nat}
    {getGhostsInfo : Nat → Option (List A)} {getGhost : Nat × Nat → Option Ghost}
    {ghosts : List (Option (A × Ghost))}
    (choosen : chooseGhosts sampler ep seed getGhostsInfo getGhost = .ok ghosts) :
    ghosts.length = 3 := by
  simp only [chooseGhosts, Result.bind_eq_ok_iff, Result.pure_eq_ok_iff] at choosen
  obtain ⟨⟨all, rng⟩, performed, rfl⟩ := choosen
  have few := chooseFromGhostsInfos_length (Nat.zero_le _) performed
  rw [List.length_append, (Sampler.shuffleAll_perm _ _).length_eq, List.length_map,
    List.length_replicate]
  simp only [ghostCount] at few ⊢
  omega

/-! ## Ready matches -/

variable {AccountId : Type}

/-- The bounds of the state of a ghost after as many turns. -/
def stateWithin (turns : Nat) : GhostState → Prop
  | .active health => 1 ≤ health
  | .retired finalTurn => 1 ≤ finalTurn ∧ finalTurn ≤ turns

/-- A match at the start of a turn. -/
structure MatchReady (immutable : PlayerImmutable AccountId) (mutable : PlayerMutable) :
    Prop where
  alive : 1 ≤ mutable.health
  health_le : mutable.health ≤ 30
  ghosts : immutable.ghosts.length = 3
  states : mutable.ghostStates.length = 3
  within : ∀ state ∈ mutable.ghostStates, stateWithin mutable.gradeAndBoardHistory.length state
  opponent : ∃ health, mutable.ghostStates[mutable.battleGhostIndex]? = some (.active health)
  history : mutable.gradeAndBoardHistory.length ≤ 39

theorem MatchReady.battleGhostIndex_lt {immutable : PlayerImmutable AccountId}
    {mutable : PlayerMutable} (ready : MatchReady immutable mutable) :
    mutable.battleGhostIndex < 3 := by
  obtain ⟨_, found⟩ := ready.opponent
  obtain ⟨bound, _⟩ := List.getElem?_eq_some_iff.mp found
  rwa [ready.states] at bound

theorem GhostStep.within {turns : Nat} {before after : GhostState}
    (step : GhostStep (turns + 1) before after) (within : stateWithin turns before) :
    stateWithin (turns + 1) after := by
  cases step with
  | same =>
      cases before with
      | active health => exact within
      | retired finalTurn => exact ⟨within.1, Nat.le_succ_of_le within.2⟩
  | damaged alive => exact Nat.pos_of_ne_zero alive
  | retired => exact ⟨Nat.le_add_left 1 turns, Nat.le_refl _⟩

theorem GhostSteps.within {turns : Nat} {before after : List GhostState}
    (steps : GhostSteps (turns + 1) before after)
    (within : ∀ state ∈ before, stateWithin turns state) :
    ∀ state ∈ after, stateWithin (turns + 1) state := by
  induction steps with
  | nil => exact List.forall_mem_nil _
  | cons step _ ih =>
      intro state member
      rcases List.mem_cons.mp member with rfl | member
      · exact step.within (within _ List.mem_cons_self)
      · exact ih (fun state member => within state (List.mem_cons_of_mem _ member)) state member

theorem buildInitialGhostStates_eq (ep : Nat) :
    ∃ health, 1 ≤ health ∧ buildInitialGhostStates ep = List.replicate 3 (.active health) := by
  unfold buildInitialGhostStates
  split <;> exact ⟨_, by decide, rfl⟩

/-- A new match is ready for its first turn. -/
theorem initialMtcMutable_ready {immutable : PlayerImmutable AccountId} (ep : Nat)
    (ghosts : immutable.ghosts.length = 3) :
    MatchReady immutable (Contract.initialMtcMutable ep) := by
  obtain ⟨health, positive, built⟩ := buildInitialGhostStates_eq ep
  have states : (Contract.initialMtcMutable ep).ghostStates = List.replicate 3 (.active health) :=
    built
  have alive : (Contract.initialMtcMutable ep).health = 30 := rfl
  constructor
  case alive | health_le => omega
  case ghosts => exact ghosts
  case states => rw [states, List.length_replicate]
  case within =>
      intro state member
      rw [states] at member
      rw [List.eq_of_mem_replicate member]
      exact positive
  case opponent => exact ⟨health, by rw [states]; rfl⟩
  case history => exact Nat.zero_le _

/-- A match that goes on after a turn is ready for the next one. -/
theorem MatchReady.next {immutable : PlayerImmutable AccountId} {mutable : PlayerMutable}
    (ready : MatchReady immutable mutable) {grade health index : Nat} {board : Board}
    {upgradeCoin : Option Nat} {states : List GhostState}
    (bound : mutable.gradeAndBoardHistory.length + 1 < 40) (alive : health ≠ 0)
    (lower : health ≤ mutable.health)
    (steps : GhostSteps (mutable.gradeAndBoardHistory.length + 1) mutable.ghostStates states)
    (opponent : ∃ health, states[index]? = some (.active health)) :
    MatchReady immutable {
      health
      gradeAndBoardHistory := mutable.gradeAndBoardHistory ++ [{ grade, board }]
      upgradeCoin
      ghostStates := states
      battleGhostIndex := index } where
  alive := Nat.pos_of_ne_zero alive
  health_le := Nat.le_trans lower ready.health_le
  ghosts := ready.ghosts
  states := steps.length_eq.symm.trans ready.states
  within := by
    rw [List.length_append, List.length_singleton]
    exact steps.within ready.within
  opponent := opponent
  history := by
    rw [List.length_append, List.length_singleton]
    omega

/-! ## Accounts -/

/-- What the storage holds of an account. -/
structure Account (AccountId : Type) where
  ep : Option Nat
  seed : Option Nat
  immutable : Option (PlayerImmutable AccountId)
  mutable : Option PlayerMutable

def Contract.account (contract : Contract AccountId) (accountId : AccountId) :
    Account AccountId where
  ep := contract.playerEp accountId
  seed := contract.playerSeed accountId
  immutable := contract.playerMtcImmutable accountId
  mutable := contract.playerMtcMutable accountId

/-- An account without a match, or with one that is ready for its next turn. -/
inductive AccountState : Account AccountId → Prop
  | idle (ep seed : Option Nat) : AccountState ⟨ep, seed, none, none⟩
  | playing (ep seed : Nat) {immutable : PlayerImmutable AccountId} {mutable : PlayerMutable}
      (ready : MatchReady immutable mutable) :
      AccountState ⟨some ep, some seed, some immutable, some mutable⟩

theorem AccountState.ready {account : Account AccountId}
    {immutable : PlayerImmutable AccountId} {mutable : PlayerMutable}
    (state : AccountState account) (foundImmutable : account.immutable = some immutable)
    (foundMutable : account.mutable = some mutable) : MatchReady immutable mutable := by
  cases state with
  | idle => cases foundMutable
  | playing ep seed ready =>
      cases foundImmutable
      cases foundMutable
      exact ready

/-- The two records of a match come and go together. -/
theorem AccountState.isSome_iff {account : Account AccountId} (state : AccountState account) :
    account.mutable.isSome ↔ account.immutable.isSome := by
  cases state with
  | idle | playing => exact Iff.rfl

theorem AccountState.ep_and_seed {account : Account AccountId} {mutable : PlayerMutable}
    (state : AccountState account) (foundMutable : account.mutable = some mutable) :
    ∃ ep seed, account.ep = some ep ∧ account.seed = some seed := by
  cases state with
  | idle => cases foundMutable
  | playing ep seed => exact ⟨ep, seed, rfl, rfl⟩

variable [DecidableEq AccountId]

namespace Contract

/-- A message of the player leaves the other accounts alone. -/
def OthersKept (player : AccountId) (before after : Contract AccountId) : Prop :=
  ∀ other, other ≠ player → after.account other = before.account other

theorem createOrUpdatePlayerEp_account (player : AccountId) (contract : Contract AccountId) :
    (contract.createOrUpdatePlayerEp player).2 = { contract with
      playerEp := update contract.playerEp player
        (some (contract.createOrUpdatePlayerEp player).1) } := by
  unfold createOrUpdatePlayerEp
  split
  · rename_i oldEp found
    split
    · rfl
    · rw [← found, Function.update_eq_self]
  · rfl

/-- `start_mtc` writes the entries of its player only. -/
theorem startMtc_cases {chain : Chain AccountId} {context : Context AccountId}
    {deckEmoBaseIds : List Nat} {before after : Contract AccountId}
    (performed : before.startMtc chain context deckEmoBaseIds = .ok after) :
    ∃ seed immutable, immutable.ghosts.length = 3 ∧ after = { before with
      playerEp := update before.playerEp context.caller
        (some (before.createOrUpdatePlayerEp context.caller).1)
      playerSeed := update before.playerSeed context.caller (some seed)
      playerMtcImmutable := update before.playerMtcImmutable context.caller (some immutable)
      playerMtcMutable := update before.playerMtcMutable context.caller
        (some (initialMtcMutable (before.createOrUpdatePlayerEp context.caller).1)) } := by
  simp only [startMtc, Result.bind_eq_ok_iff, Result.pure_eq_ok_iff] at performed
  obtain ⟨seed, _, _, _, _, _, _, _, pool, _, ghosts, choosen, rfl⟩ := performed
  rw [createOrUpdatePlayerEp_account]
  exact ⟨seed, { pool, ghosts }, chooseGhosts_length choosen, rfl⟩

theorem startMtc_accounts {chain : Chain AccountId} {context : Context AccountId}
    {deckEmoBaseIds : List Nat} {before after : Contract AccountId}
    (performed : before.startMtc chain context deckEmoBaseIds = .ok after) :
    AccountState (after.account context.caller) ∧ OthersKept context.caller before after := by
  obtain ⟨seed, immutable, three, rfl⟩ := startMtc_cases performed
  constructor
  · simp only [account, Function.update_self]
    exact .playing _ _ (initialMtcMutable_ready _ three)
  · intro other different
    simp only [account, Function.update_of_ne different]

omit [DecidableEq AccountId] in
@[simp] theorem setLeaderboard_account (leaderboardOpt : Option (List (Nat × AccountId)))
    (contract : Contract AccountId) (accountId : AccountId) :
    (contract.setLeaderboard leaderboardOpt).account accountId = contract.account accountId := by
  cases leaderboardOpt <;> rfl

/-- Only the two maps of the ghosts change. -/
theorem addMatchmakingGhostOfHistory_frame {context : Context AccountId}
    {player : AccountId} {ep : Nat} {history : List GradeAndBoard}
    {before after : Contract AccountId}
    (performed : before.addMatchmakingGhostOfHistory context player ep history = .ok after) :
    after = { before with
      matchmakingGhostsInfo := after.matchmakingGhostsInfo
      matchmakingGhostByIndex := after.matchmakingGhostByIndex } := by
  simp only [addMatchmakingGhostOfHistory, Result.bind_eq_ok_iff] at performed
  obtain ⟨last, _, performed⟩ := performed
  split at performed
  · cases performed
    rfl
  · simp only [addMatchmakingGhost, Result.bind_eq_ok_iff, Result.pure_eq_ok_iff] at performed
    obtain ⟨_, _, rfl⟩ := performed
    rfl

theorem addMatchmakingGhostOfHistory_account {context : Context AccountId} {player : AccountId}
    {ep : Nat} {history : List GradeAndBoard} {before after : Contract AccountId}
    (performed : before.addMatchmakingGhostOfHistory context player ep history = .ok after)
    (accountId : AccountId) : after.account accountId = before.account accountId := by
  rw [addMatchmakingGhostOfHistory_frame performed]
  rfl

/-- The end of a match leaves its player without one. -/
theorem finishMtc_accounts {context : Context AccountId} {player : AccountId} {place : Nat}
    {history : List GradeAndBoard} {before after : Contract AccountId}
    (performed : before.finishMtc context player place history = .ok after) :
    (after.account player).immutable = none ∧ (after.account player).mutable = none ∧
      OthersKept player before after := by
  simp only [finishMtc, Result.bind_eq_ok_iff, Result.pure_eq_ok_iff] at performed
  obtain ⟨oldEp, _, newEp, _, leaderboardOpt, _, placed, stored, rfl⟩ := performed
  refine ⟨Function.update_self .., Function.update_self .., fun other different => ?_⟩
  have kept := addMatchmakingGhostOfHistory_account stored other
  have led := setLeaderboard_account leaderboardOpt before other
  simp only [account, Account.mk.injEq, Function.update_of_ne different] at kept led ⊢
  exact ⟨kept.1.trans led.1, kept.2.1.trans led.2.1, kept.2.2.1.trans led.2.2.1,
    kept.2.2.2.trans led.2.2.2⟩

/-- The turn of a history of fewer than 256 entries. -/
theorem getTurn_eq {history : List GradeAndBoard} {turn grade : Nat} {board : Board}
    (short : history.length ≤ 39)
    (taken : getTurnAndPreviousGradeAndBoard history = .ok (turn, grade, board)) :
    turn = history.length + 1 ∧ turn < 40 := by
  simp only [getTurnAndPreviousGradeAndBoard, Mtc.getTurnAndPreviousGradeAndBoard,
    Result.bind_eq_ok_iff, Result.pure_eq_ok_iff, addU8_eq_ok_iff, ensure_eq_ok_iff] at taken
  obtain ⟨_, ⟨turn', ⟨_, rfl⟩, rfl⟩, _, bound, taken⟩ := taken
  cases taken
  rw [Nat.mod_eq_of_lt (by omega)] at bound ⊢
  exact ⟨rfl, bound⟩

/-- The next opponent is alive and not the previous one if there is a choice. -/
theorem finishMtcTurn_accounts {env : Env} {player : AccountId} {mutable : PlayerMutable}
    {newSeed : Nat} {before after : Contract AccountId}
    (performed : before.finishMtcTurn env player mutable newSeed = .ok after) :
    ∃ index, (∃ health, mutable.ghostStates[index]? = some (.active health)) ∧
      (2 ≤ (mutable.ghostStates.filter GhostState.isActive).length →
        index ≠ mutable.battleGhostIndex) ∧
      after = { before with
        playerMtcMutable := update before.playerMtcMutable player (some { mutable with
          upgradeCoin := Shop.decreaseUpgradeCoin mutable.upgradeCoin
          battleGhostIndex := index }) } := by
  simp only [finishMtcTurn, updatePlayerMtcMutableAfterBattle, Result.bind_eq_ok_iff,
    Result.pure_eq_ok_iff] at performed
  obtain ⟨_, ⟨index, selected, rfl⟩, rfl⟩ := performed
  obtain ⟨opponent, other⟩ := selectBattleGhostIndex_active selected
  exact ⟨index, opponent, other, rfl⟩

/-- After a turn the match is over or ready for the next turn. -/
theorem finishMtcShop_accounts {chain : Chain AccountId} {context : Context AccountId}
    {fuel : Nat} {operations : List Shop.PlayerOperation} {before after : Contract AccountId}
    (state : AccountState (before.account context.caller))
    (performed : before.finishMtcShop chain context fuel operations = pure after) :
    AccountState (after.account context.caller) ∧ OthersKept context.caller before after ∧
      ∀ previous next, before.playerMtcMutable context.caller = some previous →
        after.playerMtcMutable context.caller = some next →
        2 ≤ (next.ghostStates.filter GhostState.isActive).length →
        next.battleGhostIndex ≠ previous.battleGhostIndex := by
  simp only [finishMtcShop, Fueled.bind_eq_pure_iff, Fueled.of_eq_pure_iff, okOr_eq_ok_iff]
    at performed
  obtain ⟨emoBases, _, immutable, foundImmutable, mutable, foundMutable, ⟨turn, grade, board⟩,
    taken, seed, _, ⟨played, playedGrade, upgradeCoin⟩, _, newSeed, _,
    ⟨finalPlace, health, states, _⟩, battled, updated⟩ := performed
  have ready : MatchReady immutable mutable := state.ready foundImmutable foundMutable
  obtain ⟨rfl, bound⟩ := getTurn_eq ready.history taken
  obtain ⟨lower, steps, unfinished⟩ := battleAll_steps battled
  simp only [updateForFinishMtcShop, Result.bind_eq_ok_iff, Result.pure_eq_ok_iff] at updated
  obtain ⟨stored, finished, rfl⟩ := updated
  cases finalPlace with
  | some place =>
      obtain ⟨noImmutable, noMutable, kept⟩ := finishMtc_accounts finished
      simp only [account] at noImmutable noMutable
      refine ⟨?_, fun other different => ?_, fun previous next _ found => ?_⟩
      · simp only [account, noImmutable, noMutable]
        exact .idle _ _
      · rw [← kept other different]
        simp only [account, Function.update_of_ne different]
      · rw [noMutable] at found
        cases found
  | none =>
      obtain ⟨index, opponent, changed, rfl⟩ := finishMtcTurn_accounts finished
      obtain ⟨ep, _, foundEp, _⟩ := state.ep_and_seed foundMutable
      simp only [account] at foundEp
      refine ⟨?_, fun other different => ?_, fun previous next foundPrevious found => ?_⟩
      · simp only [account, Function.update_self, foundEp, foundImmutable]
        exact .playing ep newSeed
          (ready.next bound (unfinished rfl) lower steps opponent)
      · simp only [account, Function.update_of_ne different]
      · rw [foundMutable] at foundPrevious
        simp only [Function.update_self] at found
        cases foundPrevious
        cases found
        exact changed

/-- What a message does to the storage. -/
inductive Executed (chain : Chain AccountId) (context : Context AccountId) (fuel : Nat)
    (before : Contract AccountId) : Message AccountId → Contract AccountId → Prop
  | managed {message : Message AccountId} (admins : List AccountId)
      (other : ∀ playerOperations, message ≠ .finishMtcShop playerOperations) :
      Executed chain context fuel before message { before with admins }
  | updated {newBases bases : Bases} {fixedBaseIds builtBaseIds : List Nat}
      {forceBasesUpdate : Bool}
      (performed :
        before.updateEmoBases context newBases fixedBaseIds builtBaseIds forceBasesUpdate =
          .ok { before with
            emoBases := some bases
            deckFixedEmoBaseIds := some fixedBaseIds
            deckBuiltEmoBaseIds := some builtBaseIds }) :
      Executed chain context fuel before
        (.updateEmoBases newBases fixedBaseIds builtBaseIds forceBasesUpdate)
        { before with
          emoBases := some bases
          deckFixedEmoBaseIds := some fixedBaseIds
          deckBuiltEmoBaseIds := some builtBaseIds }
  | started {deckEmoBaseIds : List Nat} {after : Contract AccountId}
      (performed : before.startMtc chain context deckEmoBaseIds = .ok after) :
      Executed chain context fuel before (.startMtc deckEmoBaseIds) after
  | finished {playerOperations : List Shop.PlayerOperation} {after : Contract AccountId}
      (performed : before.finishMtcShop chain context fuel playerOperations = pure after) :
      Executed chain context fuel before (.finishMtcShop playerOperations) after

theorem execute_executed {chain : Chain AccountId} {context : Context AccountId} {fuel : Nat}
    {message : Message AccountId} {before after : Contract AccountId}
    (performed : before.execute chain context fuel message = pure after) :
    Executed chain context fuel before message after := by
  cases message with
  | get =>
      cases performed
      exact .managed before.admins (by simp)
  | addAdmin _ | removeAdmin _ | setCode =>
      simp only [execute, Fueled.of_eq_pure_iff, addAdmin, removeAdmin, setCode,
        Result.bind_eq_ok_iff, Result.pure_eq_ok_iff] at performed
      obtain ⟨_, _, rfl⟩ := performed
      exact .managed _ (by simp)
  | updateEmoBases newBases fixedBaseIds builtBaseIds forceBasesUpdate =>
      simp only [execute, Fueled.of_eq_pure_iff] at performed
      have written := performed
      simp only [updateEmoBases, Result.bind_eq_ok_iff, Result.pure_eq_ok_iff] at written
      obtain ⟨_, _, _, _, rfl⟩ := written
      exact .updated performed
  | startMtc deckEmoBaseIds => exact .started (Fueled.of_eq_pure_iff.mp performed)
  | finishMtcShop operations => exact .finished performed

/-- A message by an account. -/
theorem execute_accounts {chain : Chain AccountId} {context : Context AccountId} {fuel : Nat}
    {message : Message AccountId} {before after : Contract AccountId}
    (states : ∀ accountId, AccountState (before.account accountId))
    (performed : before.execute chain context fuel message = pure after) (accountId : AccountId) :
    AccountState (after.account accountId) := by
  cases execute_executed performed with
  | managed | updated => exact states accountId
  | started performed =>
      obtain ⟨state, kept⟩ := startMtc_accounts performed
      by_cases own : accountId = context.caller
      · exact own ▸ state
      · rw [kept accountId own]
        exact states accountId
  | finished performed =>
      obtain ⟨state, kept, _⟩ := finishMtcShop_accounts (states context.caller) performed
      by_cases own : accountId = context.caller
      · exact own ▸ state
      · rw [kept accountId own]
        exact states accountId

/-! ## Reachable contracts -/

/-- One successful message. -/
def Executes (chain : Chain AccountId) (before after : Contract AccountId) : Prop :=
  ∃ context fuel message, before.execute chain context fuel message = pure after

/-- A contract after successful messages. -/
def Reachable (chain : Chain AccountId) (contract : Contract AccountId) : Prop :=
  ∃ deployer, Relation.ReflTransGen (Executes chain) (new deployer) contract

theorem Reachable.accounts {chain : Chain AccountId} {contract : Contract AccountId}
    (reached : contract.Reachable chain) (accountId : AccountId) :
    AccountState (contract.account accountId) := by
  obtain ⟨deployer, messages⟩ := reached
  induction messages generalizing accountId with
  | refl => exact .idle none none
  | tail _ message ih =>
      obtain ⟨context, fuel, message, performed⟩ := message
      exact execute_accounts ih performed accountId

/-- After any messages every account is without a match or has one that is
ready for its next turn, with an EP and a seed, and a turn never leaves the
player with the opponent of before when there is another one. -/
theorem reachable_matches {chain : Chain AccountId} {contract : Contract AccountId}
    (reached : contract.Reachable chain) (player : AccountId) :
    ((contract.playerMtcMutable player).isSome ↔ (contract.playerMtcImmutable player).isSome) ∧
      (∀ immutable mutable, contract.playerMtcImmutable player = some immutable →
        contract.playerMtcMutable player = some mutable →
        (∃ ep, contract.playerEp player = some ep) ∧
          (∃ seed, contract.playerSeed player = some seed) ∧
          MatchReady immutable mutable ∧ mutable.battleGhostIndex < 3) ∧
      ∀ context fuel operations after, context.caller = player →
        contract.execute chain context fuel (.finishMtcShop operations) = pure after →
        ∀ previous next, contract.playerMtcMutable player = some previous →
          after.playerMtcMutable player = some next →
          2 ≤ (next.ghostStates.filter GhostState.isActive).length →
          next.battleGhostIndex ≠ previous.battleGhostIndex := by
  have state := reached.accounts player
  refine ⟨state.isSome_iff, fun immutable mutable foundImmutable foundMutable => ?_, ?_⟩
  · have ready := state.ready foundImmutable foundMutable
    obtain ⟨ep, seed, foundEp, foundSeed⟩ := state.ep_and_seed foundMutable
    exact ⟨⟨ep, foundEp⟩, ⟨seed, foundSeed⟩, ready, ready.battleGhostIndex_lt⟩
  · rintro context fuel operations after rfl performed
    exact (finishMtcShop_accounts state performed).2.2

/-- A deployer that stores the emo bases, starts a match and plays a turn of it
is ready for the next one, against another ghost. -/
theorem reachable_matches_turn :
    ∃ (chain : Chain Nat) (context : Context Nat) (contract after : Contract Nat)
      (immutable : PlayerImmutable Nat) (previous next : PlayerMutable),
      contract.playerMtcMutable 0 = some previous ∧
      contract.execute chain context 20 (.finishMtcShop [.buy 35 0]) = pure after ∧
      after.playerMtcImmutable 0 = some immutable ∧ after.playerMtcMutable 0 = some next ∧
      MatchReady immutable next ∧ next.battleGhostIndex ≠ previous.battleGhostIndex := by
  let chain : Chain Nat := { sampler := .first, hashEncoded := fun _ _ time => time }
  let context : Context Nat :=
    { caller := 0, callerIsOrigin := true, blockNumber := 1, blockTimestamp := 5 }
  let bases : Bases := fun id => if id < 12 then some ⟨id, .human, id % 6 + 1, 1, 1, []⟩ else none
  let stored : Contract Nat :=
    { admins := [0]
      emoBases := some bases
      deckFixedEmoBaseIds := some [6, 7, 8, 9, 10, 11]
      deckBuiltEmoBaseIds := some [0, 1, 2, 3, 4, 5] }
  have storing : (new 0).execute chain context 0
      (.updateEmoBases bases [6, 7, 8, 9, 10, 11] [0, 1, 2, 3, 4, 5] true) = pure stored := rfl
  have playing : (stored.execute chain context 0
      (.startMtc [0, 1, 2, 3, 4, 5])).value?.any fun contract =>
        (contract.playerMtcMutable 0).isSome &&
        (contract.execute chain context 20 (.finishMtcShop [.buy 35 0])).value?.any fun after =>
          (after.playerMtcImmutable 0).isSome && (after.playerMtcMutable 0).any fun next =>
            2 ≤ (next.ghostStates.filter GhostState.isActive).length := by
    decide +kernel
  obtain ⟨contract, started, found⟩ := Fueled.exists_of_value? playing
  rw [Bool.and_eq_true, Option.isSome_iff_exists] at found
  obtain ⟨⟨previous, foundPrevious⟩, found⟩ := found
  obtain ⟨after, played, found⟩ := Fueled.exists_of_value? found
  rw [Bool.and_eq_true, Option.isSome_iff_exists] at found
  obtain ⟨⟨immutable, foundImmutable⟩, found⟩ := found
  obtain ⟨next, foundNext, active⟩ := (Option.any_eq_true _ _).mp found
  have messages : Relation.ReflTransGen (Executes chain) (new 0) contract :=
    (Relation.ReflTransGen.single ⟨context, 0, _, storing⟩).tail ⟨context, 0, _, started⟩
  have reached : contract.Reachable chain := ⟨0, messages⟩
  have reachedAfter : after.Reachable chain := ⟨0, messages.tail ⟨context, 20, _, played⟩⟩
  have turn := (reachable_matches reached 0).2.2 context 20 [.buy 35 0] after rfl played
  have ready := (reachable_matches reachedAfter 0).2.1 immutable next foundImmutable foundNext
  exact ⟨chain, context, contract, after, immutable, previous, next, foundPrevious, played,
    foundImmutable, foundNext, ready.2.2.1,
    turn previous next foundPrevious foundNext (of_decide_eq_true active)⟩

end Contract

end EmojiBattler.Game
