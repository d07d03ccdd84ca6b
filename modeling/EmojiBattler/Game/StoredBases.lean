import EmojiBattler.Shop.Conservation
import EmojiBattler.Mtc.Rivals
import EmojiBattler.Game.EmoBases
import EmojiBattler.Game.Isolation

/-! # The bases that the storage names

An update that is not forced only adds bases.  Everything the contract stores
names bases that it has looked up, and these stay. -/

namespace EmojiBattler.Mtc

open EmojiBattler.Emo CallMachine

/-! ## The boards of a turn -/

namespace Shop

variable {env : Env}

def OnBases (bases : Bases) (board : ShopBoard) : Prop := ∀ emo ∈ board, Resolves bases emo.baseId

theorem OnBases.insertIdx {bases : Bases} {board : ShopBoard} {emo : ShopBoardEmo} {index : Nat}
    (onBases : OnBases bases board) (resolves : Resolves bases emo.baseId) :
    OnBases bases (board.insertIdx index emo) := by
  intro other member
  rcases List.eq_or_mem_of_mem_insertIdx member with rfl | old
  · exact resolves
  · exact onBases other old

theorem OnBases.step {task : Task env.sampler} {before after : ShopState}
    {calls : List (Task env.sampler)} (keyed : KeyedBases env.emoBases)
    (onBases : OnBases env.emoBases before.board)
    (performed : perform env task before = .ok (calls, after)) :
    OnBases env.emoBases after.board := by
  cases perform_effect performed with
  | update _ update _ =>
      refine update.board.forall ?_ onBases
      intro emo changed change holds
      rwa [change.baseId_eq]
  | settled _ _ _ _ _ _ _ same => rwa [same]
  | addition base baseId isTriple _ found addition _ =>
      obtain ⟨_, ⟨index, _, inserted⟩, _⟩ := addition
      rw [inserted]
      refine onBases.insertIdx ⟨base, ?_⟩
      change env.emoBases base.id = some base
      rwa [keyed _ _ found]
  | merge _ target _ _ _ merge =>
      obtain ⟨_, ⟨triple, built, _, ⟨index, _, inserted⟩, _⟩, _⟩ := merge
      obtain ⟨base, found, baseId, _⟩ := built.base
      rw [inserted]
      refine OnBases.insertIdx (fun emo member => onBases emo (List.mem_filter.mp member).1) ⟨base, ?_⟩
      rw [baseId, keyed _ _ found]
      exact found

theorem OnBases.returns {stack : List (Task env.sampler)} {before after : ShopState}
    (keyed : KeyedBases env.emoBases) (onBases : OnBases env.emoBases before.board)
    (returned : Returns (perform env) ⟨stack, before⟩ after) : OnBases env.emoBases after.board :=
  Reaches.state_invariant (P := fun state => OnBases env.emoBases state.board)
    (fun holds performed => holds.step keyed performed) returned onBases

theorem OnBases.operated {catalog : Catalog} {operation : PlayerOperation}
    {before after : TurnState} (keyed : KeyedBases env.emoBases)
    (onBases : OnBases env.emoBases before.shop.board)
    (operated : Operated env catalog before after operation) :
    OnBases env.emoBases after.shop.board := by
  cases operated with
  | @buy mtcEmoId index base added started calls _ _ found addition _ returned _ =>
      obtain ⟨_, ⟨position, _, inserted⟩, _⟩ := addition
      have bought : OnBases env.emoBases started.board := by
        rw [inserted]
        refine onBases.insertIdx ⟨added, ?_⟩
        change env.emoBases added.id = some added
        rwa [keyed _ _ found]
      exact bought.returns keyed returned
  | @sell index soldEmo started calls _ _ removal _ _ returned _ =>
      have left : OnBases env.emoBases started.board := by
        rw [removal]
        exact fun emo member => onBases emo (List.mem_of_mem_eraseIdx member)
      exact left.returns keyed returned
  | move permuted _ _ => exact fun emo member => onBases emo (permuted.subset member)
  | nextCatalogLine shop _ | upgrade shop _ => rwa [shop]

/-- The emos of an accepted turn have bases, when those before it had. -/
theorem verifyPlayerOperationsAndUpdate_resolves {fuel grade seed turn generatedIds : Nat}
    {board : Board} {upgradeCoin : Option Nat} {ops : List PlayerOperation} {pool : List Emo}
    {result : Board × Nat × Option Nat} (keyed : KeyedBases env.emoBases)
    (resolves : ∀ emo ∈ board, Resolves env.emoBases emo.baseId)
    (verified : verifyPlayerOperationsAndUpdate env fuel board grade upgradeCoin ops pool seed turn
      generatedIds = pure result) : ∀ emo ∈ result.1, Resolves env.emoBases emo.baseId := by
  simp only [verifyPlayerOperationsAndUpdate, Fueled.bind_eq_pure_iff, Fueled.pure_eq_pure_iff]
    at verified
  obtain ⟨last, played, rfl⟩ := verified
  obtain ⟨_, _, onBases⟩ := @TurnInput.play_invariant env
    (fun _ _ state => OnBases env.emoBases state.shop.board)
    ⟨board, fuel, grade, upgradeCoin, ops, pool, seed, turn, generatedIds⟩ last
    (fun started => by
      have opened : OnBases env.emoBases (openShop board generatedIds).board := by
        intro emo member
        obtain ⟨⟨boardEmo, number⟩, indexed, rfl⟩ := List.mem_map.mp member
        exact resolves boardEmo (List.fst_mem_of_mem_zipIdx indexed)
      exact opened.returns keyed (startTurn_opened started).returned)
    (fun _ holds performed => holds.operated keyed (applyOperation_operated performed)) played
  intro emo member
  obtain ⟨shopEmo, present, rfl⟩ := List.mem_map.mp member
  exact onBases shopEmo present

end Shop

/-! ## Pools -/

theorem buildPoolLoop_resolves {bases : Bases} {baseIds : List Nat} {mtcEmoId : Nat}
    {deck pool : List Emo} (keyed : Shop.KeyedBases bases)
    (before : ∀ emo ∈ deck, Resolves bases emo.baseId)
    (built : buildPoolLoop bases baseIds mtcEmoId deck = .ok pool) :
    ∀ emo ∈ pool, Resolves bases emo.baseId := by
  induction baseIds generalizing mtcEmoId deck with
  | nil =>
      cases built
      exact before
  | cons id rest ih =>
      simp only [buildPoolLoop, Result.bind_eq_ok_iff, Emo.Bases.find_eq_ok_iff] at built
      obtain ⟨base, found, num, _, _, _, built⟩ := built
      refine ih ?_ built
      intro emo member
      rcases List.mem_append.mp member with old | new
      · exact before emo old
      · obtain ⟨_, _, rfl⟩ := List.mem_map.mp new
        refine ⟨base, ?_⟩
        change bases base.id = some base
        rwa [keyed _ _ found]

theorem buildPool_resolves {bases : Bases} {selected fixedBaseIds builtBaseIds : List Nat}
    {pool : List Emo} (keyed : Shop.KeyedBases bases)
    (built : buildPool selected bases fixedBaseIds builtBaseIds = .ok pool) :
    ∀ emo ∈ pool, Resolves bases emo.baseId := by
  simp only [buildPool, Result.bind_eq_ok_iff] at built
  obtain ⟨_, _, built⟩ := built
  have none : ∀ emo ∈ ([] : List Emo), Resolves bases emo.baseId := List.forall_mem_nil _
  exact buildPoolLoop_resolves keyed none built

end EmojiBattler.Mtc

namespace EmojiBattler.Game

open EmojiBattler.Emo EmojiBattler.Mtc EmojiBattler.Mtc.Storage
open Function (update)

variable {AccountId : Type}

namespace Contract

/-- The base of an id at present. -/
def findBase (contract : Contract AccountId) (id : Nat) : Option Base :=
  contract.emoBases.bind fun bases => bases id

/-- A base id that the storage of the matches and of the ghosts holds. -/
inductive StoredBaseId (contract : Contract AccountId) : Nat → Prop
  | pool {player : AccountId} {immutable : PlayerImmutable AccountId} {emo : Mtc.Emo}
      (found : contract.playerMtcImmutable player = some immutable)
      (member : emo ∈ immutable.pool) : StoredBaseId contract emo.baseId
  | history {player : AccountId} {mutable : PlayerMutable} {entry : GradeAndBoard}
      {emo : BoardEmo} (found : contract.playerMtcMutable player = some mutable)
      (played : entry ∈ mutable.gradeAndBoardHistory) (member : emo ∈ entry.board) :
      StoredBaseId contract emo.baseId
  | chosenGhost {player account : AccountId} {immutable : PlayerImmutable AccountId}
      {ghost : Ghost} {entry : GradeAndGhostBoard} {emo : GhostBoardEmo}
      (found : contract.playerMtcImmutable player = some immutable)
      (chosen : some (account, ghost) ∈ immutable.ghosts) (played : entry ∈ ghost.history)
      (member : emo ∈ entry.board) : StoredBaseId contract emo.baseId
  | matchmakingGhost {key : Nat × Nat} {ghost : Ghost} {entry : GradeAndGhostBoard}
      {emo : GhostBoardEmo} (found : contract.matchmakingGhostByIndex key = some ghost)
      (played : entry ∈ ghost.history) (member : emo ∈ entry.board) :
      StoredBaseId contract emo.baseId

/-- Everything that is stored names a base, and the bases are keyed by their
ids. -/
structure BasesStored (contract : Contract AccountId) : Prop where
  keyed : ∀ bases, contract.emoBases = some bases → Shop.KeyedBases bases
  stored : ∀ id, StoredBaseId contract id → (contract.findBase id).isSome
  fixed : ∀ ids, contract.deckFixedEmoBaseIds = some ids → ∀ id ∈ ids, (contract.findBase id).isSome
  built : ∀ ids, contract.deckBuiltEmoBaseIds = some ids → ∀ id ∈ ids, (contract.findBase id).isSome

/-- The bases of one contract are those of the other, and perhaps more. -/
def Extends (before after : Contract AccountId) : Prop :=
  ∀ id base, before.findBase id = some base → after.findBase id = some base

theorem Extends.refl (contract : Contract AccountId) : Extends contract contract :=
  fun _ _ found => found

theorem Extends.trans {first middle last : Contract AccountId} (left : Extends first middle)
    (right : Extends middle last) : Extends first last :=
  fun id base found => right id base (left id base found)

theorem Extends.isSome {before after : Contract AccountId} (more : Extends before after) {id : Nat}
    (found : (before.findBase id).isSome) : (after.findBase id).isSome := by
  obtain ⟨base, found⟩ := Option.isSome_iff_exists.mp found
  exact Option.isSome_iff_exists.mpr ⟨base, more id base found⟩

theorem findBase_isSome {contract : Contract AccountId} {bases : Bases} {id : Nat}
    (found : contract.emoBases = some bases) :
    (contract.findBase id).isSome ↔ Resolves bases id := by
  rw [findBase, found]
  exact Option.isSome_iff_exists

/-! ## What the messages store -/

/-- The same maps hold the same ids. -/
theorem StoredBaseId.congr {before after : Contract AccountId} {id : Nat}
    (stored : StoredBaseId after id)
    (immutable : after.playerMtcImmutable = before.playerMtcImmutable)
    (mutable : after.playerMtcMutable = before.playerMtcMutable)
    (ghosts : after.matchmakingGhostByIndex = before.matchmakingGhostByIndex) :
    StoredBaseId before id := by
  cases stored with
  | pool found member => exact .pool (immutable ▸ found) member
  | history found played member => exact .history (mutable ▸ found) played member
  | chosenGhost found chosen played member =>
      exact .chosenGhost (immutable ▸ found) chosen played member
  | matchmakingGhost found played member => exact .matchmakingGhost (ghosts ▸ found) played member

theorem BasesStored.of_stored {before after : Contract AccountId} (whole : BasesStored before)
    (bases : after.emoBases = before.emoBases)
    (fixed : after.deckFixedEmoBaseIds = before.deckFixedEmoBaseIds)
    (built : after.deckBuiltEmoBaseIds = before.deckBuiltEmoBaseIds)
    (stored : ∀ id, StoredBaseId after id → (before.findBase id).isSome) : BasesStored after := by
  have same (id : Nat) : after.findBase id = before.findBase id := by rw [findBase, findBase, bases]
  constructor
  case keyed => rw [bases]; exact whole.keyed
  case stored => intro id listed; rw [same]; exact stored id listed
  case fixed => intro ids found id member; rw [same]; exact whole.fixed ids (fixed ▸ found) id member
  case built => intro ids found id member; rw [same]; exact whole.built ids (built ▸ found) id member

theorem BasesStored.kept {before after : Contract AccountId} (whole : BasesStored before)
    (bases : after.emoBases = before.emoBases)
    (fixed : after.deckFixedEmoBaseIds = before.deckFixedEmoBaseIds)
    (built : after.deckBuiltEmoBaseIds = before.deckBuiltEmoBaseIds)
    (immutable : after.playerMtcImmutable = before.playerMtcImmutable)
    (mutable : after.playerMtcMutable = before.playerMtcMutable)
    (ghosts : after.matchmakingGhostByIndex = before.matchmakingGhostByIndex) :
    BasesStored after :=
  whole.of_stored bases fixed built fun id stored =>
    whole.stored id (stored.congr immutable mutable ghosts)

/-- The bases are updated as `loadEmoBases` builds them and are not forced. -/
def KeepsBases : Message AccountId → Prop
  | .updateEmoBases newBases _ _ forceBasesUpdate =>
      forceBasesUpdate = false ∧ Shop.KeyedBases newBases
  | _ => True

variable [DecidableEq AccountId]

theorem updateEmoBases_basesStored {context : Context AccountId} {newBases : Bases}
    {fixedBaseIds builtBaseIds : List Nat} {before after : Contract AccountId}
    (whole : BasesStored before) (keyed : Shop.KeyedBases newBases)
    (performed : before.updateEmoBases context newBases fixedBaseIds builtBaseIds false =
      .ok after) : BasesStored after ∧ Extends before after := by
  simp only [updateEmoBases, Result.bind_eq_ok_iff, Result.pure_eq_ok_iff] at performed
  obtain ⟨_, _, bases, accepted, rfl⟩ := performed
  have resolves := checkAndBuildEmoBases_resolves accepted
  have added : ∀ id, bases id = (before.findBase id <|> newBases id) := by
    intro id
    simp only [checkAndBuildEmoBases, Result.bind_eq_ok_iff, Result.pure_eq_ok_iff] at accepted
    obtain ⟨_, _, _, _, rfl⟩ := accepted
    rw [findBase]
    cases before.emoBases <;> rfl
  have more : Extends before { before with
      emoBases := some bases
      deckFixedEmoBaseIds := some fixedBaseIds
      deckBuiltEmoBaseIds := some builtBaseIds } := by
    intro id base found
    change bases id = some base
    rw [added, found]
    rfl
  refine ⟨⟨?_, ?_, ?_, ?_⟩, more⟩
  · intro _ stored id base found
    cases stored
    rw [added] at found
    cases old : before.findBase id with
    | some listed =>
        rw [old] at found
        cases found
        obtain ⟨bases, stored, listed⟩ := Option.bind_eq_some_iff.mp old
        exact whole.keyed bases stored id base listed
    | none =>
        rw [old] at found
        exact keyed id base found
  · intro id stored
    exact more.isSome (whole.stored id (stored.congr rfl rfl rfl))
  · intro ids found id member
    cases found
    exact (findBase_isSome rfl).mpr (resolves id (List.mem_append_left _ member))
  · intro ids found id member
    cases found
    exact (findBase_isSome rfl).mpr (resolves id (List.mem_append_right _ member))

theorem startMtc_basesStored {chain : Chain AccountId} {context : Context AccountId}
    {deckEmoBaseIds : List Nat} {before after : Contract AccountId} (whole : BasesStored before)
    (performed : before.startMtc chain context deckEmoBaseIds = .ok after) :
    BasesStored after ∧ after.emoBases = before.emoBases := by
  simp only [startMtc, createOrUpdatePlayerEp_account, Result.bind_eq_ok_iff,
    Result.pure_eq_ok_iff, okOr_eq_ok_iff] at performed
  obtain ⟨seed, _, bases, foundBases, fixedIds, _, builtIds, _, pool, builtPool, ghosts, chosen,
    rfl⟩ := performed
  refine ⟨whole.of_stored rfl rfl rfl fun id stored => ?_, rfl⟩
  have keyed := whole.keyed bases foundBases
  cases stored with
  | @pool player immutable emo found member =>
      simp only [Function.update_apply] at found
      split at found
      · cases found
        exact (findBase_isSome foundBases).mpr (buildPool_resolves keyed builtPool emo member)
      · exact whole.stored _ (.pool found member)
  | @history player mutable entry emo found played member =>
      simp only [Function.update_apply] at found
      split at found
      · cases found
        cases played
      · exact whole.stored _ (.history found played member)
  | @chosenGhost player account immutable ghost entry emo found listed played member =>
      simp only [Function.update_apply] at found
      split at found
      · cases found
        obtain ⟨key, read⟩ := chooseGhosts_read chosen listed
        exact whole.stored _ (.matchmakingGhost read played member)
      · exact whole.stored _ (.chosenGhost found listed played member)
  | matchmakingGhost found played member =>
      exact whole.stored _ (.matchmakingGhost found played member)

/-! ## The turns -/

/-- Every emo of the history has a base. -/
def HistoryResolves (bases : Bases) (history : List GradeAndBoard) : Prop :=
  ∀ entry ∈ history, ∀ emo ∈ entry.board, Resolves bases emo.baseId

theorem buildGhostFromHistory_resolves {bases : Bases} {history : List GradeAndBoard}
    (resolves : HistoryResolves bases history) {entry : GradeAndGhostBoard} {emo : GhostBoardEmo}
    (played : entry ∈ (buildGhostFromHistory history).history) (member : emo ∈ entry.board) :
    Resolves bases emo.baseId := by
  obtain ⟨source, listed, rfl⟩ := List.mem_map.mp played
  obtain ⟨boardEmo, present, rfl⟩ := List.mem_map.mp member
  exact resolves source listed boardEmo present

omit [DecidableEq AccountId] in
/-- A turn starts from a stored board and its pool, and plays on the bases. -/
theorem playTurn_resolves {chain : Chain AccountId} {context : Context AccountId} {fuel : Nat}
    {playerOperations : List Shop.PlayerOperation} {contract : Contract AccountId}
    {outcome : TurnOutcome} (whole : BasesStored contract)
    (performed : contract.playTurn chain context fuel playerOperations = pure outcome) :
    contract.emoBases = some outcome.emoBases ∧
      HistoryResolves outcome.emoBases (outcome.mutable.gradeAndBoardHistory ++
        [{ grade := outcome.grade, board := outcome.board }]) := by
  simp only [playTurn, Fueled.bind_eq_pure_iff, Fueled.of_eq_pure_iff, okOr_eq_ok_iff,
    Fueled.pure_eq_pure_iff] at performed
  obtain ⟨bases, foundBases, immutable, _, mutable, foundMutable, ⟨turn, grade, board⟩, taken,
    seed, _, ⟨played, playedGrade, upgradeCoin⟩, verified, newSeed, _, ⟨finalPlace, health, states,
    _⟩, _, rfl⟩ := performed
  have stored : HistoryResolves bases mutable.gradeAndBoardHistory := fun entry listed emo member =>
    (findBase_isSome foundBases).mp (whole.stored _ (.history foundMutable listed member))
  have previous : ∀ emo ∈ board, Resolves bases emo.baseId := by
    simp only [getTurnAndPreviousGradeAndBoard, Mtc.getTurnAndPreviousGradeAndBoard,
      Result.bind_eq_ok_iff, Result.pure_eq_ok_iff, Prod.mk.injEq] at taken
    obtain ⟨_, ⟨_, _, rfl⟩, _, _, _, _, rfl⟩ := taken
    cases last : mutable.gradeAndBoardHistory.getLast? with
    | none => exact List.forall_mem_nil _
    | some entry => exact stored entry (List.mem_of_getLast? last)
  have board := Shop.verifyPlayerOperationsAndUpdate_resolves (whole.keyed bases foundBases)
    previous verified
  refine ⟨foundBases, fun entry listed => ?_⟩
  rcases List.mem_append.mp listed with old | new
  · exact stored entry old
  · rw [List.mem_singleton.mp new]
    exact board

/-- What the ghost store gets from a history. -/
theorem addMatchmakingGhostOfHistory_stored {context : Context AccountId} {player : AccountId}
    {ep : Nat} {history : List GradeAndBoard} {before after : Contract AccountId}
    (performed : before.addMatchmakingGhostOfHistory context player ep history = .ok after)
    {id : Nat} (stored : StoredBaseId after id) :
    StoredBaseId before id ∨ ∃ entry ∈ (buildGhostFromHistory history).history,
      ∃ emo ∈ entry.board, emo.baseId = id := by
  simp only [addMatchmakingGhostOfHistory, Result.bind_eq_ok_iff] at performed
  obtain ⟨last, _, performed⟩ := performed
  split at performed
  · cases performed
    exact .inl stored
  · simp only [addMatchmakingGhost, Result.bind_eq_ok_iff, Result.pure_eq_ok_iff] at performed
    obtain ⟨⟨info, index⟩, _, rfl⟩ := performed
    cases stored with
    | pool found member => exact .inl (.pool found member)
    | history found played member => exact .inl (.history found played member)
    | chosenGhost found chosen played member => exact .inl (.chosenGhost found chosen played member)
    | @matchmakingGhost key ghost entry emo found played member =>
        simp only [Function.update_apply] at found
        split at found
        · cases found
          exact .inr ⟨entry, played, emo, member, rfl⟩
        · exact .inl (.matchmakingGhost found played member)

theorem finishMtc_basesStored {context : Context AccountId} {player : AccountId} {place : Nat}
    {bases : Bases} {history : List GradeAndBoard} {before after : Contract AccountId}
    (whole : BasesStored before) (foundBases : before.emoBases = some bases)
    (resolves : HistoryResolves bases history)
    (performed : before.finishMtc context player place history = .ok after) :
    BasesStored after ∧ after.emoBases = before.emoBases := by
  have sameBases := finishMtc_emoBases performed
  simp only [finishMtc, Result.bind_eq_ok_iff, Result.pure_eq_ok_iff] at performed
  obtain ⟨_, _, newEp, _, leaderboardOpt, _, placed, registered, rfl⟩ := performed
  have frame := addMatchmakingGhostOfHistory_frame registered
  refine ⟨whole.of_stored sameBases ?_ ?_ fun id stored => ?_, sameBases⟩
  · rw [frame]
    cases leaderboardOpt <;> rfl
  · rw [frame]
    cases leaderboardOpt <;> rfl
  · have placedStored : StoredBaseId placed id := by
      cases stored with
      | pool found member =>
          simp only [Function.update_apply] at found
          split at found
          · cases found
          · exact .pool found member
      | history found played member =>
          simp only [Function.update_apply] at found
          split at found
          · cases found
          · exact .history found played member
      | chosenGhost found chosen played member =>
          simp only [Function.update_apply] at found
          split at found
          · cases found
          · exact .chosenGhost found chosen played member
      | matchmakingGhost found played member => exact .matchmakingGhost found played member
    rcases addMatchmakingGhostOfHistory_stored registered placedStored with old | ⟨_, played, _, member, rfl⟩
    · refine whole.stored id (old.congr ?_ ?_ ?_) <;> cases leaderboardOpt <;> rfl
    · exact (findBase_isSome foundBases).mpr (buildGhostFromHistory_resolves resolves played member)

theorem finishMtcShop_basesStored {chain : Chain AccountId} {context : Context AccountId}
    {fuel : Nat} {playerOperations : List Shop.PlayerOperation} {before after : Contract AccountId}
    (whole : BasesStored before)
    (performed : before.finishMtcShop chain context fuel playerOperations = pure after) :
    BasesStored after ∧ after.emoBases = before.emoBases := by
  obtain ⟨outcome, _, turn, rfl, ending⟩ := finishMtcShop_cases performed
  obtain ⟨foundBases, resolves⟩ := playTurn_resolves whole turn
  obtain ⟨place, stored, _, finished, rfl⟩ | ⟨index, _, rfl⟩ := ending
  · obtain ⟨next, bases⟩ := finishMtc_basesStored whole foundBases resolves finished
    exact ⟨next.kept rfl rfl rfl rfl rfl rfl, bases⟩
  · refine ⟨whole.of_stored rfl rfl rfl fun id stored => ?_, rfl⟩
    cases stored with
    | pool found member => exact whole.stored _ (.pool found member)
    | @history player mutable entry emo found played member =>
        simp only [Function.update_apply] at found
        split at found
        · cases found
          exact (findBase_isSome foundBases).mpr (resolves entry played emo member)
        · exact whole.stored _ (.history found played member)
    | chosenGhost found chosen played member =>
        exact whole.stored _ (.chosenGhost found chosen played member)
    | matchmakingGhost found played member =>
        exact whole.stored _ (.matchmakingGhost found played member)

/-! ## Runs -/

/-- A successful message that is no forced update. -/
def ExecutesKeeping (chain : Chain AccountId) (before after : Contract AccountId) : Prop :=
  ∃ context fuel message, KeepsBases message ∧
    before.execute chain context fuel message = pure after

theorem ExecutesKeeping.step {chain : Chain AccountId} {before after : Contract AccountId}
    (executes : ExecutesKeeping chain before after) (whole : BasesStored before) :
    BasesStored after ∧ Extends before after := by
  have extends_of_eq {after : Contract AccountId} (same : after.emoBases = before.emoBases) :
      Extends before after := by
    intro id base found
    rwa [findBase, same]
  obtain ⟨context, fuel, message, keeps, performed⟩ := executes
  cases execute_executed performed with
  | managed => exact ⟨whole.kept rfl rfl rfl rfl rfl rfl, extends_of_eq rfl⟩
  | updated accepted =>
      obtain ⟨rfl, keyed⟩ := keeps
      exact updateEmoBases_basesStored whole keyed accepted
  | started performed =>
      obtain ⟨next, same⟩ := startMtc_basesStored whole performed
      exact ⟨next, extends_of_eq same⟩
  | finished performed =>
      obtain ⟨next, same⟩ := finishMtcShop_basesStored whole performed
      exact ⟨next, extends_of_eq same⟩

omit [DecidableEq AccountId] in
theorem basesStored_new (deployer : AccountId) : BasesStored (new deployer) := by
  constructor
  case keyed => exact fun _ found => nomatch found
  case fixed => exact fun _ found => nomatch found
  case built => exact fun _ found => nomatch found
  case stored =>
      intro id stored
      cases stored with
      | pool found _ | history found _ _ | chosenGhost found _ _ _ | matchmakingGhost found _ _ =>
          cases found

theorem ExecutesKeeping.run {chain : Chain AccountId} {before after : Contract AccountId}
    (messages : Relation.ReflTransGen (ExecutesKeeping chain) before after)
    (whole : BasesStored before) : BasesStored after ∧ Extends before after := by
  induction messages with
  | refl => exact ⟨whole, .refl _⟩
  | tail _ executes ih =>
      obtain ⟨next, more⟩ := executes.step ih.1
      exact ⟨next, ih.2.trans more⟩

/-- Whatever base ids are stored at some time resolve then and later, always to
the same base; and so do the two lists of the deck. -/
theorem stored_bases_resolve {chain : Chain AccountId} {deployer : AccountId}
    {earlier current : Contract AccountId}
    (before : Relation.ReflTransGen (ExecutesKeeping chain) (new deployer) earlier)
    (later : Relation.ReflTransGen (ExecutesKeeping chain) earlier current) :
    (∀ id, StoredBaseId earlier id →
      ∃ base, earlier.findBase id = some base ∧ current.findBase id = some base) ∧
    (∀ ids, earlier.deckFixedEmoBaseIds = some ids ∨ earlier.deckBuiltEmoBaseIds = some ids →
      ∀ id ∈ ids, ∃ base, earlier.findBase id = some base ∧ current.findBase id = some base) := by
  have whole := (ExecutesKeeping.run before (basesStored_new deployer)).1
  have more := (ExecutesKeeping.run later whole).2
  have both {id : Nat} (found : (earlier.findBase id).isSome) :
      ∃ base, earlier.findBase id = some base ∧ current.findBase id = some base := by
    obtain ⟨base, found⟩ := Option.isSome_iff_exists.mp found
    exact ⟨base, found, more id base found⟩
  constructor
  · exact fun id stored => both (whole.stored id stored)
  · rintro ids (fixed | built) id member
    · exact both (whole.fixed ids fixed id member)
    · exact both (whole.built ids built id member)

/-- The pool of a match names base 0, which a later update lists with another
attack. -/
theorem stored_bases_resolve_updated :
    ∃ (earlier current : Contract Nat) (base : Base), StoredBaseId earlier 0 ∧
      earlier.findBase 0 = some base ∧ current.findBase 0 = some base := by
  let chain : Chain Nat := { sampler := .first, hashEncoded := fun _ _ time => time }
  let context : Context Nat :=
    { caller := 0, callerIsOrigin := true, blockNumber := 1, blockTimestamp := 5 }
  let bases (attack : Nat) : Bases := fun id =>
    if id < 6 then some ⟨id, .human, id + 1, attack, 1, []⟩ else none
  have keyed (attack : Nat) : Shop.KeyedBases (bases attack) := by
    intro id base found
    simp only [bases] at found
    split at found
    · cases found
      rfl
    · cases found
  let stored : Contract Nat :=
    { admins := [0]
      emoBases := some fun id => none <|> bases 1 id
      deckFixedEmoBaseIds := some []
      deckBuiltEmoBaseIds := some [0, 1, 2, 3, 4, 5] }
  have storing : (new 0).execute chain context 0
      (.updateEmoBases (bases 1) [] [0, 1, 2, 3, 4, 5] false) = pure stored := rfl
  have starting : (stored.execute chain context 0
      (.startMtc [0, 1, 2, 3, 4, 5])).value?.any fun contract =>
        ((contract.playerMtcImmutable 0).any fun immutable =>
          immutable.pool.any fun emo => emo.baseId = 0) &&
        (contract.execute chain context 0
          (.updateEmoBases (bases 2) [] [0, 1, 2, 3, 4, 5] false)).value?.isSome := by
    decide +kernel
  obtain ⟨earlier, started, found⟩ := Fueled.exists_of_value? starting
  simp only [Bool.and_eq_true, Option.any_eq_true, Option.isSome_iff_exists,
    Fueled.value?_eq_some_iff] at found
  obtain ⟨⟨immutable, foundImmutable, listed⟩, current, updated⟩ := found
  obtain ⟨emo, member, named⟩ := List.any_eq_true.mp listed
  have names : StoredBaseId earlier 0 := of_decide_eq_true named ▸ .pool foundImmutable member
  have first : ExecutesKeeping chain (new 0) stored :=
    ⟨context, 0, .updateEmoBases (bases 1) [] [0, 1, 2, 3, 4, 5] false, ⟨rfl, keyed 1⟩, storing⟩
  have second : ExecutesKeeping chain stored earlier :=
    ⟨context, 0, .startMtc [0, 1, 2, 3, 4, 5], trivial, started⟩
  have third : ExecutesKeeping chain earlier current :=
    ⟨context, 0, .updateEmoBases (bases 2) [] [0, 1, 2, 3, 4, 5] false, ⟨rfl, keyed 2⟩, updated⟩
  obtain ⟨base, before, after⟩ :=
    (stored_bases_resolve (.tail (.single first) second) (.single third)).1 0 names
  exact ⟨earlier, current, base, names, before, after⟩

end Contract

end EmojiBattler.Game
