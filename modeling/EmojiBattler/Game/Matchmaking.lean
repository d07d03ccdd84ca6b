import Mathlib.Data.List.Nodup
import EmojiBattler.Library.Keyed
import EmojiBattler.Mtc.Rivals
import EmojiBattler.Game.Matches

/-! # The store of the matchmaking ghosts

The list of a band and the ghosts by index are two maps.  They stay aligned:
the ghost at an index is that of the account listed there. -/

namespace EmojiBattler.Game

open EmojiBattler.Emo EmojiBattler.Mtc EmojiBattler.Mtc.Storage
open Sampling
open Function (update)

/-! ## The place of a ghost -/

section Place

variable {AccountId : Type}

/-- The search comes to an entry with the smallest block number. -/
theorem oldestIndex_min {rest done : List (Nat × AccountId)} {oldest : Nat × Nat}
    {account : AccountId} (found : (done ++ rest)[oldest.1]? = some (oldest.2, account))
    (least : ∀ entry ∈ done, oldest.2 ≤ entry.1) :
    ∃ num account, (done ++ rest)[Contract.oldestIndex rest done.length oldest]? =
        some (num, account) ∧ ∀ entry ∈ done ++ rest, num ≤ entry.1 := by
  induction rest generalizing done oldest account with
  | nil =>
      rw [List.append_nil] at found ⊢
      exact ⟨oldest.2, account, found, least⟩
  | cons entry rest ih =>
      obtain ⟨num, candidate⟩ := entry
      rw [Contract.oldestIndex, List.append_cons]
      rw [List.append_cons] at found
      have length : done.length + 1 = (done ++ [(num, candidate)]).length := by simp
      rw [length]
      split
      · rename_i older
        refine @ih (done ++ [(num, candidate)]) (done.length, num) candidate ?_ fun entry member => ?_
        · simp
        · rcases List.mem_append.mp member with before | last
          · exact Nat.le_trans (Nat.le_of_lt older) (least entry before)
          · rw [List.mem_singleton.mp last]
      · rename_i younger
        refine ih found fun entry member => ?_
        rcases List.mem_append.mp member with before | last
        · exact least entry before
        · rw [List.mem_singleton.mp last]
          exact Nat.le_of_not_lt younger

variable [DecidableEq AccountId]

/-- A list of a band. -/
structure InfoBounded (info : List (Nat × AccountId)) : Prop where
  size : info.length ≤ 20
  distinct : (info.map Prod.snd).Nodup

/-- The player is placed at an index, and no other index changes. -/
structure Placed (player : AccountId) (blockNumber : Nat) (before after : List (Nat × AccountId))
    (index : Nat) : Prop where
  bounded : InfoBounded after
  found : after[index]? = some (blockNumber, player)
  others : ∀ other, other ≠ index → after[other]? = before[other]?
  /-- A new account replaces the oldest entry of a full list. -/
  oldest : before.length = 20 → player ∉ before.map Prod.snd →
    after = before.set index (blockNumber, player) ∧
      ∃ num account, before[index]? = some (num, account) ∧ ∀ entry ∈ before, num ≤ entry.1

theorem placeMatchmakingGhost_placed {player : AccountId} {blockNumber : Nat}
    {info : List (Nat × AccountId)} (bounded : InfoBounded info) :
    ∃ placed index, Contract.placeMatchmakingGhost player blockNumber info = .ok (placed, index) ∧
      Placed player blockNumber info placed index := by
  unfold Contract.placeMatchmakingGhost
  cases same : info.findIdx? fun entry => entry.2 = player with
  | some index =>
      obtain ⟨bound, own⟩ := Keyed.key_of_findIdx?_eq_some same
      refine ⟨_, _, rfl, ⟨?_, ?_⟩, List.getElem?_set_self bound,
        fun other different => List.getElem?_set_ne different.symm, fun _ new => ?_⟩
      · rw [List.length_set]
        exact bounded.size
      · rw [@Keyed.map_set_of_key_eq _ _ Prod.snd info (blockNumber, player) index bound own]
        exact bounded.distinct
      · exact absurd (own ▸ List.mem_map_of_mem (List.getElem_mem bound)) new
  | none =>
      have new : player ∉ info.map Prod.snd := Keyed.notMem_of_findIdx?_eq_none same
      dsimp only
      split
      · rename_i short
        refine ⟨_, _, rfl, ⟨?_, ?_⟩, by simp, fun other different => ?_, fun full => by omega⟩
        · rw [List.length_append, List.length_singleton]
          exact short
        · rw [List.map_append, List.map_singleton, ← List.concat_eq_append]
          exact bounded.distinct.concat new
        · rcases Nat.lt_or_ge other info.length with inside | outside
          · exact List.getElem?_append_left inside
          · rw [List.getElem?_eq_none outside, List.getElem?_eq_none]
            rw [List.length_append, List.length_singleton]
            omega
      · rename_i full
        cases info with
        | nil => exact absurd (Nat.zero_lt_succ _) full
        | cons entry rest =>
            obtain ⟨num, account⟩ := entry
            obtain ⟨least, owner, found, smallest⟩ :=
              @oldestIndex_min _ rest [(num, account)] (0, num) account rfl
                (fun entry member => by rw [List.mem_singleton.mp member])
            rw [List.singleton_append] at found smallest
            refine ⟨_, _, rfl, ⟨?_, ?_⟩, ?_,
              fun other different => List.getElem?_set_ne different.symm,
              fun _ _ => ⟨rfl, least, owner, found, smallest⟩⟩
            · rw [List.length_set]
              exact bounded.size
            · rw [List.map_set]
              exact bounded.distinct.set new
            · exact List.getElem?_set_self (List.getElem?_eq_some_iff.mp found).1

end Place

/-! ## Choosing stored ghosts -/

section Choosing

variable {A : Type} {getGhostsInfo : Nat → Option (List A)} {getGhost : Nat × Nat → Option Ghost}

/-- A value listed in a band with the ghost at its index. -/
def StoredGhost (getGhostsInfo : Nat → Option (List A)) (getGhost : Nat × Nat → Option Ghost)
    (chosen : A × Ghost) : Prop :=
  ∃ epBand listed index, getGhostsInfo epBand = some listed ∧ listed[index]? = some chosen.1 ∧
    getGhost (epBand, index) = some chosen.2

/-- Every index of a band has a ghost. -/
structure GhostsStored (getGhostsInfo : Nat → Option (List A))
    (getGhost : Nat × Nat → Option Ghost) : Prop where
  small : ∀ epBand listed, getGhostsInfo epBand = some listed → listed.length ≤ u8Max
  ghost : ∀ epBand listed index, getGhostsInfo epBand = some listed → index < listed.length →
    ∃ ghost, getGhost (epBand, index) = some ghost

theorem GhostsStored.chooseGhosts (stored : GhostsStored getGhostsInfo getGhost)
    (sampler : Sampler) (ep seed : Nat) :
    ∃ ghosts, Mtc.chooseGhosts sampler ep seed getGhostsInfo getGhost = .ok ghosts ∧
      ∀ ghost, some ghost ∈ ghosts → StoredGhost getGhostsInfo getGhost ghost := by
  obtain ⟨drawn, rng, performed, facts⟩ := drawRivals sampler ep seed stored.small stored.ghost
  obtain ⟨_, _, listed_iff, _⟩ := @collectGhostsInfos_spec _ getGhostsInfo (getEpBand ep)
  refine ⟨_, chooseGhosts_of_drawn performed, ?_⟩
  intro ghost member
  rcases List.mem_append.mp member with member | member
  · obtain ⟨rival, picked, same⟩ := List.mem_map.mp member
    cases same
    obtain ⟨listed, present, placed, read⟩ := facts.paired rival (mem_of_mem_pick picked)
    exact ⟨rival.1.1, listed, rival.1.2, ((listed_iff _).mp present).2, placed, read⟩
  · cases List.eq_of_mem_replicate member

end Choosing

/-! ## Registrations -/

variable {AccountId : Type}

/-- A history that `add_matchmaking_ghost` was called with. -/
structure Registration (AccountId : Type) where
  epBand : Nat
  player : AccountId
  blockNumber : Nat
  history : List GradeAndBoard

/-- A history whose last board is not empty. -/
def LastBoardFilled (history : List GradeAndBoard) : Prop :=
  ∃ last, history.getLast? = some last ∧ last.board ≠ []

instance (history : List GradeAndBoard) : Decidable (LastBoardFilled history) :=
  match found : history.getLast? with
  | none => .isFalse fun ⟨last, same, _⟩ => by rw [found] at same; cases same
  | some last =>
      if filled : last.board ≠ [] then .isTrue ⟨last, found, filled⟩
      else .isFalse fun ⟨other, same, nonempty⟩ => by
        rw [found] at same
        cases same
        exact filled nonempty

namespace Contract

variable [DecidableEq AccountId]

/-- The history after the operations of a turn. -/
def playedHistory (chain : Chain AccountId) (context : Context AccountId) (fuel : Nat)
    (playerOperations : List Shop.PlayerOperation) (contract : Contract AccountId) :
    Fueled (List GradeAndBoard) := do
  let emoBases ← Fueled.of (okOr contract.emoBases (.panicked "emo_bases none"))
  let env : Env := { emoBases, sampler := chain.sampler }
  let immutable ← Fueled.of (okOr (contract.playerMtcImmutable context.caller)
    (.panicked "player_mtc_immutable none"))
  let mutable ← Fueled.of (okOr (contract.playerMtcMutable context.caller)
    (.panicked "player_mtc_mutable none"))
  let (turn, grade, board) ←
    Fueled.of (getTurnAndPreviousGradeAndBoard mutable.gradeAndBoardHistory)
  let seed ← Fueled.of (okOr (contract.playerSeed context.caller) (.panicked "player_seed none"))
  let (board, grade, _) ← Shop.verifyPlayerOperationsAndUpdate env fuel board grade
    mutable.upgradeCoin playerOperations immutable.pool seed turn 0
  return mutable.gradeAndBoardHistory ++ [{ grade, board }]

/-- The registration by a message between two contracts: that of a match that
ends with emos on the last board. -/
def registration (chain : Chain AccountId) (context : Context AccountId) (fuel : Nat)
    (before after : Contract AccountId) : Message AccountId → Option (Registration AccountId)
  | .finishMtcShop playerOperations =>
      match before.playerEp context.caller,
          (before.playedHistory chain context fuel playerOperations).value? with
      | some ep, some history =>
          if (after.playerMtcMutable context.caller).isNone ∧ LastBoardFilled history then
            some ⟨getEpBand ep, context.caller, context.blockNumber, history⟩
          else none
      | _, _ => none
  | _ => none

omit [DecidableEq AccountId] in
theorem registration_eq_none {chain : Chain AccountId} {context : Context AccountId} {fuel : Nat}
    {message : Message AccountId} {before after : Contract AccountId}
    (other : ∀ playerOperations, message ≠ .finishMtcShop playerOperations) :
    registration chain context fuel before after message = none := by
  cases message with
  | finishMtcShop playerOperations => exact absurd rfl (other playerOperations)
  | _ => rfl

/-- Both maps of the ghosts are the same. -/
structure SameGhosts (before after : Contract AccountId) : Prop where
  info : after.matchmakingGhostsInfo = before.matchmakingGhostsInfo
  ghost : after.matchmakingGhostByIndex = before.matchmakingGhostByIndex

/-- The list of a band. -/
def bandInfo (contract : Contract AccountId) (epBand : Nat) : List (Nat × AccountId) :=
  (contract.matchmakingGhostsInfo epBand).getD []

/-- The ghost of a registration is stored at an index of its band. -/
structure Registers (registration : Registration AccountId) (before after : Contract AccountId)
    (info : List (Nat × AccountId)) (index : Nat) : Prop where
  place : placeMatchmakingGhost registration.player registration.blockNumber
    (before.bandInfo registration.epBand) = .ok (info, index)
  info : after.matchmakingGhostsInfo =
    update before.matchmakingGhostsInfo registration.epBand (some info)
  ghost : after.matchmakingGhostByIndex = update before.matchmakingGhostByIndex
    (registration.epBand, index % 256) (some (buildGhostFromHistory registration.history))
  filled : LastBoardFilled registration.history

theorem startMtc_sameGhosts {chain : Chain AccountId} {context : Context AccountId}
    {deckEmoBaseIds : List Nat} {before after : Contract AccountId}
    (performed : before.startMtc chain context deckEmoBaseIds = .ok after) :
    SameGhosts before after := by
  obtain ⟨_, _, _, rfl⟩ := startMtc_cases performed
  exact ⟨rfl, rfl⟩

theorem addMatchmakingGhostOfHistory_registers {context : Context AccountId}
    {player : AccountId} {ep : Nat} {history : List GradeAndBoard}
    {before after : Contract AccountId}
    (performed : before.addMatchmakingGhostOfHistory context player ep history = .ok after) :
    (LastBoardFilled history → ∃ info index, Registers
      ⟨getEpBand ep, player, context.blockNumber, history⟩ before after info index) ∧
      (¬ LastBoardFilled history → SameGhosts before after) := by
  simp only [addMatchmakingGhostOfHistory, Result.bind_eq_ok_iff, okOr_eq_ok_iff] at performed
  obtain ⟨last, found, performed⟩ := performed
  split at performed
  · rename_i empty
    cases performed
    refine ⟨?_, fun _ => ⟨rfl, rfl⟩⟩
    rintro ⟨other, again, filled⟩
    rw [found] at again
    cases again
    exact absurd (List.isEmpty_iff.mp empty) filled
  · rename_i nonempty
    have filled : LastBoardFilled history :=
      ⟨last, found, fun empty => nonempty (List.isEmpty_iff.mpr empty)⟩
    simp only [addMatchmakingGhost, Result.bind_eq_ok_iff, Result.pure_eq_ok_iff] at performed
    obtain ⟨⟨info, index⟩, place, rfl⟩ := performed
    exact ⟨fun _ => ⟨info, index, place, rfl, rfl, filled⟩, fun unfilled => absurd filled unfilled⟩

theorem finishMtc_registers {context : Context AccountId} {player : AccountId} {place ep : Nat}
    {history : List GradeAndBoard} {before after : Contract AccountId}
    (foundEp : before.playerEp player = some ep)
    (performed : before.finishMtc context player place history = .ok after) :
    after.playerMtcMutable player = none ∧
      (LastBoardFilled history → ∃ info index, Registers
        ⟨getEpBand ep, player, context.blockNumber, history⟩ before after info index) ∧
      (¬ LastBoardFilled history → SameGhosts before after) := by
  simp only [finishMtc, Result.bind_eq_ok_iff, Result.pure_eq_ok_iff, okOr_eq_ok_iff] at performed
  obtain ⟨oldEp, foundOld, newEp, _, leaderboardOpt, _, placed, stored, rfl⟩ := performed
  rw [foundEp] at foundOld
  cases foundOld
  refine ⟨Function.update_self .., ?_⟩
  obtain ⟨registers, same⟩ := addMatchmakingGhostOfHistory_registers stored
  have info : (before.setLeaderboard leaderboardOpt).matchmakingGhostsInfo =
      before.matchmakingGhostsInfo := by
    cases leaderboardOpt <;> rfl
  have ghost : (before.setLeaderboard leaderboardOpt).matchmakingGhostByIndex =
      before.matchmakingGhostByIndex := by
    cases leaderboardOpt <;> rfl
  refine ⟨fun filled => ?_, fun unfilled => ?_⟩
  · obtain ⟨listed, index, registers⟩ := registers filled
    refine ⟨listed, index, ?_, ?_, ?_, registers.filled⟩
    · rw [← registers.place]
      unfold bandInfo
      rw [← info]
    · exact info ▸ registers.info
    · exact ghost ▸ registers.ghost
  · exact ⟨(same unfilled).info.trans info, (same unfilled).ghost.trans ghost⟩

/-- A message registers at most one history, and only then changes the ghosts. -/
theorem execute_registers {chain : Chain AccountId} {context : Context AccountId} {fuel : Nat}
    {message : Message AccountId} {before after : Contract AccountId}
    (performed : before.execute chain context fuel message = pure after) :
    match registration chain context fuel before after message with
    | some registration => ∃ info index, Registers registration before after info index
    | none => SameGhosts before after := by
  cases execute_executed performed with
  | managed _ other =>
      rw [registration_eq_none other]
      exact ⟨rfl, rfl⟩
  | updated => exact ⟨rfl, rfl⟩
  | started performed => exact startMtc_sameGhosts performed
  | @finished operations _ performed =>
      simp only [finishMtcShop, Fueled.bind_eq_pure_iff, Fueled.of_eq_pure_iff,
        okOr_eq_ok_iff] at performed
      obtain ⟨emoBases, foundBases, immutable, foundImmutable, mutable, foundMutable,
        ⟨turn, grade, board⟩, taken, seed, foundSeed, ⟨played, playedGrade, upgradeCoin⟩,
        verified, newSeed, _, ⟨finalPlace, health, states, _⟩, _, updated⟩ := performed
      have history : before.playedHistory chain context fuel operations =
          pure (mutable.gradeAndBoardHistory ++ [{ grade := playedGrade, board := played }]) := by
        simp only [playedHistory, Fueled.bind_eq_pure_iff, Fueled.of_eq_pure_iff, okOr_eq_ok_iff]
        exact ⟨emoBases, foundBases, immutable, foundImmutable, mutable, foundMutable,
          _, taken, seed, foundSeed, _, verified, rfl⟩
      simp only [updateForFinishMtcShop, Result.bind_eq_ok_iff, Result.pure_eq_ok_iff] at updated
      obtain ⟨stored, finished, rfl⟩ := updated
      have value : (before.playedHistory chain context fuel operations).value? =
          some (mutable.gradeAndBoardHistory ++ [{ grade := playedGrade, board := played }]) := by
        rw [history]
        rfl
      cases finalPlace with
      | some place =>
          obtain ⟨ep, foundEp⟩ : ∃ ep, before.playerEp context.caller = some ep := by
            simp only [finishMtcOrTurn, finishMtc, Result.bind_eq_ok_iff, okOr_eq_ok_iff]
              at finished
            obtain ⟨ep, foundEp, _⟩ := finished
            exact ⟨ep, foundEp⟩
          obtain ⟨ended, registers, same⟩ := finishMtc_registers foundEp finished
          simp only [registration, foundEp, value, ended, Option.isNone_none, true_and]
          by_cases filled : LastBoardFilled
              (mutable.gradeAndBoardHistory ++ [{ grade := playedGrade, board := played }])
          · rw [if_pos filled]
            obtain ⟨info, index, registers⟩ := registers filled
            exact ⟨info, index, registers.place, registers.info, registers.ghost, filled⟩
          · rw [if_neg filled]
            exact ⟨(same filled).info, (same filled).ghost⟩
      | none =>
          obtain ⟨index, _, _, rfl⟩ := finishMtcTurn_accounts finished
          simp only [registration, value, Function.update_self, Option.isNone_some, false_and,
            Bool.false_eq_true, if_false]
          cases before.playerEp context.caller <;> exact ⟨rfl, rfl⟩

/-! ## Runs -/

/-- A run of successful messages and the registrations of it, the latest one
first. -/
inductive Run (chain : Chain AccountId) : List (Registration AccountId) → Contract AccountId → Prop
  | deployed (deployer : AccountId) : Run chain [] (new deployer)
  | executed {registrations : List (Registration AccountId)} {before after : Contract AccountId}
      (context : Context AccountId) (fuel : Nat) (message : Message AccountId)
      (run : Run chain registrations before)
      (performed : before.execute chain context fuel message = pure after) :
      Run chain ((registration chain context fuel before after message).toList ++ registrations)
        after

/-- Every reachable contract is the end of a run. -/
theorem Reachable.run {chain : Chain AccountId} {contract : Contract AccountId}
    (reached : contract.Reachable chain) : ∃ registrations, Run chain registrations contract := by
  obtain ⟨deployer, messages⟩ := reached
  induction messages with
  | refl => exact ⟨[], .deployed deployer⟩
  | tail _ message ih =>
      obtain ⟨registrations, run⟩ := ih
      obtain ⟨context, fuel, message, performed⟩ := message
      exact ⟨_, .executed context fuel message run performed⟩

/-- The latest registration of an account in a band. -/
def latest (registrations : List (Registration AccountId)) (epBand : Nat) (player : AccountId) :
    Option (Registration AccountId) :=
  registrations.find? fun registration =>
    registration.epBand = epBand ∧ registration.player = player

/-- The ghost is that of the latest history that the account registered. -/
def LatestGhost (registrations : List (Registration AccountId)) (epBand : Nat)
    (player : AccountId) (ghost : Ghost) : Prop :=
  ∃ registration, latest registrations epBand player = some registration ∧
    LastBoardFilled registration.history ∧ ghost = buildGhostFromHistory registration.history

theorem LatestGhost.cons {registrations : List (Registration AccountId)} {epBand : Nat}
    {player : AccountId} {ghost : Ghost} {newer : Registration AccountId}
    (different : ¬ (newer.epBand = epBand ∧ newer.player = player))
    (before : LatestGhost registrations epBand player ghost) :
    LatestGhost (newer :: registrations) epBand player ghost := by
  obtain ⟨registration, found, kept⟩ := before
  refine ⟨registration, ?_, kept⟩
  unfold latest at found ⊢
  rwa [List.find?_cons_of_neg (by simpa using different)]

/-- A band whose list and ghosts fit. -/
structure BandAligned (registrations : List (Registration AccountId))
    (contract : Contract AccountId) (epBand : Nat) : Prop where
  bounded : InfoBounded (contract.bandInfo epBand)
  ghost : ∀ index blockNumber account,
    (contract.bandInfo epBand)[index]? = some (blockNumber, account) →
      ∃ ghost, contract.matchmakingGhostByIndex (epBand, index) = some ghost ∧
        LatestGhost registrations epBand account ghost

theorem SameGhosts.bandAligned {registrations : List (Registration AccountId)}
    {before after : Contract AccountId} {epBand : Nat} (same : SameGhosts before after)
    (aligned : BandAligned registrations before epBand) :
    BandAligned registrations after epBand := by
  have info : after.bandInfo epBand = before.bandInfo epBand := by
    unfold bandInfo
    rw [same.info]
  constructor
  · exact info ▸ aligned.bounded
  · rw [info, same.ghost]
    exact aligned.ghost

theorem Registers.bandAligned {registrations : List (Registration AccountId)}
    {newer : Registration AccountId} {before after : Contract AccountId} {epBand index : Nat}
    {info : List (Nat × AccountId)} (registers : Registers newer before after info index)
    (aligned : ∀ epBand, BandAligned registrations before epBand) :
    BandAligned (newer :: registrations) after epBand := by
  obtain ⟨listed, position, found, placed⟩ :=
    @placeMatchmakingGhost_placed _ _ newer.player newer.blockNumber _
      (aligned newer.epBand).bounded
  rw [registers.place] at found
  cases found
  have small : index % 256 = index := by
    have bound := (List.getElem?_eq_some_iff.mp placed.found).1
    have size := placed.bounded.size
    exact Nat.mod_eq_of_lt (by omega)
  by_cases own : epBand = newer.epBand
  · subst own
    have stored : after.bandInfo newer.epBand = info := by
      simp only [bandInfo, registers.info, Function.update_self, Option.getD_some]
    constructor
    · rw [stored]
      exact placed.bounded
    · intro other blockNumber account listed
      rw [stored] at listed
      rw [registers.ghost, small]
      by_cases here : other = index
      · subst here
        rw [placed.found] at listed
        cases listed
        refine ⟨_, Function.update_self .., newer, ?_, registers.filled, rfl⟩
        exact List.find?_cons_of_pos (by simp)
      · rw [Function.update_of_ne (by simpa using here)]
        have account_ne : newer.player ≠ account := by
          rintro rfl
          have left : (info.map Prod.snd)[index]? = some newer.player := by
            rw [List.getElem?_map, placed.found]
            rfl
          have right : (info.map Prod.snd)[other]? = some newer.player := by
            rw [List.getElem?_map, listed]
            rfl
          have bound := (List.getElem?_eq_some_iff.mp left).1
          exact here ((List.getElem?_inj bound placed.bounded.distinct).mp
            (left.trans right.symm)).symm
        rw [placed.others other here] at listed
        obtain ⟨ghost, found, latest⟩ := (aligned newer.epBand).ghost other blockNumber account listed
        exact ⟨ghost, found, latest.cons fun same => account_ne same.2⟩
  · have kept : after.bandInfo epBand = before.bandInfo epBand := by
      unfold bandInfo
      rw [registers.info, Function.update_of_ne own]
    constructor
    · rw [kept]
      exact (aligned epBand).bounded
    · intro other blockNumber account listed
      rw [kept] at listed
      rw [registers.ghost, Function.update_of_ne (by simp [own])]
      obtain ⟨ghost, found, latest⟩ := (aligned epBand).ghost other blockNumber account listed
      exact ⟨ghost, found, latest.cons fun same => own same.1.symm⟩

theorem Run.bandAligned {chain : Chain AccountId} {registrations : List (Registration AccountId)}
    {contract : Contract AccountId} (run : Run chain registrations contract) (epBand : Nat) :
    BandAligned registrations contract epBand := by
  induction run generalizing epBand with
  | deployed deployer =>
      constructor
      · exact ⟨Nat.zero_le _, List.nodup_nil⟩
      · intro index blockNumber account listed
        cases listed
  | executed context fuel message _ performed ih =>
      have registers := execute_registers performed
      split at registers
      · rename_i newer found
        obtain ⟨info, index, registers⟩ := registers
        rw [found]
        exact registers.bandAligned ih
      · rename_i none
        rw [none]
        exact registers.bandAligned (ih epBand)

/-- What `start_mtc` reads of the list of a band. -/
def getGhostsInfo (contract : Contract AccountId) (epBand : Nat) : Option (List AccountId) :=
  (contract.matchmakingGhostsInfo epBand).map fun v => v.map Prod.snd

omit [DecidableEq AccountId] in
theorem getElem?_bandInfo {contract : Contract AccountId} {epBand index : Nat}
    {listed : List AccountId} {account : AccountId}
    (found : contract.getGhostsInfo epBand = some listed) (here : listed[index]? = some account) :
    ∃ blockNumber, (contract.bandInfo epBand)[index]? = some (blockNumber, account) := by
  obtain ⟨info, stored, rfl⟩ := Option.map_eq_some_iff.mp found
  rw [List.getElem?_map, Option.map_eq_some_iff] at here
  obtain ⟨⟨blockNumber, _⟩, here, rfl⟩ := here
  exact ⟨blockNumber, by rw [bandInfo, stored]; exact here⟩

theorem Run.ghostsStored {chain : Chain AccountId} {registrations : List (Registration AccountId)}
    {contract : Contract AccountId} (run : Run chain registrations contract) :
    GhostsStored contract.getGhostsInfo contract.matchmakingGhostByIndex := by
  constructor
  · intro epBand listed found
    have size := (run.bandAligned epBand).bounded.size
    obtain ⟨info, stored, rfl⟩ := Option.map_eq_some_iff.mp found
    rw [bandInfo, stored, Option.getD_some] at size
    rw [List.length_map]
    exact Nat.le_trans size (by decide)
  · intro epBand listed index found bound
    obtain ⟨blockNumber, here⟩ := getElem?_bandInfo found (List.getElem?_eq_getElem bound)
    obtain ⟨ghost, has, _⟩ := (run.bandAligned epBand).ghost index blockNumber _ here
    exact ⟨ghost, has⟩

/-- After every run the bands are aligned, a new account that registers in a
full band takes the place of an oldest entry only, and a match can start with
ghosts that are those of their accounts. -/
theorem run_ghosts {chain : Chain AccountId} {registrations : List (Registration AccountId)}
    {contract : Contract AccountId} (run : Run chain registrations contract) :
    (∀ epBand, BandAligned registrations contract epBand) ∧
      (∀ context fuel message after newer,
        contract.execute chain context fuel message = pure after →
        registration chain context fuel contract after message = some newer →
        (contract.bandInfo newer.epBand).length = 20 →
        newer.player ∉ (contract.bandInfo newer.epBand).map Prod.snd →
        ∃ index blockNumber account,
          (contract.bandInfo newer.epBand)[index]? = some (blockNumber, account) ∧
          (∀ entry ∈ contract.bandInfo newer.epBand, blockNumber ≤ entry.1) ∧
          after.matchmakingGhostsInfo = update contract.matchmakingGhostsInfo newer.epBand
            (some ((contract.bandInfo newer.epBand).set index
              (newer.blockNumber, newer.player))) ∧
          after.matchmakingGhostByIndex = update contract.matchmakingGhostByIndex
            (newer.epBand, index) (some (buildGhostFromHistory newer.history))) ∧
      ∀ player seed, ∃ ghosts,
        chooseGhosts chain.sampler (contract.createOrUpdatePlayerEp player).1 seed
          (contract.createOrUpdatePlayerEp player).2.getGhostsInfo
          (contract.createOrUpdatePlayerEp player).2.matchmakingGhostByIndex = .ok ghosts ∧
        ∀ account ghost, some (account, ghost) ∈ ghosts →
          ∃ epBand, account ∈ (contract.bandInfo epBand).map Prod.snd ∧
            LatestGhost registrations epBand account ghost := by
  refine ⟨run.bandAligned, ?_, fun player seed => ?_⟩
  · intro context fuel message after newer performed registered full new
    have registers := execute_registers performed
    rw [registered] at registers
    obtain ⟨info, index, registers⟩ := registers
    obtain ⟨listed, position, found, placed⟩ :=
      @placeMatchmakingGhost_placed _ _ newer.player newer.blockNumber _
        (run.bandAligned newer.epBand).bounded
    rw [registers.place] at found
    cases found
    obtain ⟨rfl, blockNumber, account, here, smallest⟩ := placed.oldest full new
    have bound := (List.getElem?_eq_some_iff.mp here).1
    have small : index % 256 = index := Nat.mod_eq_of_lt (by omega)
    exact ⟨index, blockNumber, account, here, smallest, registers.info, small ▸ registers.ghost⟩
  · rw [createOrUpdatePlayerEp_account]
    obtain ⟨ghosts, performed, kept⟩ := run.ghostsStored.chooseGhosts chain.sampler
      (contract.createOrUpdatePlayerEp player).1 seed
    refine ⟨ghosts, performed, fun account ghost member => ?_⟩
    obtain ⟨epBand, listed, index, found, here, has⟩ := kept _ member
    obtain ⟨blockNumber, here⟩ := getElem?_bandInfo found here
    obtain ⟨stored, again, latest⟩ := (run.bandAligned epBand).ghost index blockNumber account here
    rw [has] at again
    cases again
    exact ⟨epBand, List.mem_map_of_mem (List.mem_of_getElem? here), latest⟩

/-- A player that wins a match in three turns registers its boards. -/
theorem run_ghosts_registered :
    ∃ (chain : Chain Nat) (registrations : List (Registration Nat)) (contract : Contract Nat)
      (ghost : Ghost), Run chain registrations contract ∧ contract.bandInfo 3 = [(1, 0)] ∧
      contract.matchmakingGhostByIndex (3, 0) = some ghost ∧
      LatestGhost registrations 3 0 ghost := by
  let chain : Chain Nat := { sampler := .first, hashEncoded := fun _ _ time => time }
  let context : Context Nat :=
    { caller := 0, callerIsOrigin := true, blockNumber := 1, blockTimestamp := 5 }
  let companion (baseId : Nat) : Ability := .shop (.peri (.asOneself .set (.setEmo baseId)))
  let bases : Bases := fun id =>
    if id < 12 then some ⟨id, .human, id % 6 + 1, 1, 1,
      if id = 6 then [companion 5, companion 11, companion 5, companion 11] else []⟩
    else none
  let messages : Fueled (Contract Nat) := do
    let stored ← (new 0).execute chain context 0
      (.updateEmoBases bases [6, 7, 8, 9, 10, 11] [0, 1, 2, 3, 4, 5] true)
    let started ← stored.execute chain context 0 (.startMtc [0, 1, 2, 3, 4, 5])
    let first ← started.execute chain context 30 (.finishMtcShop [.buy 34 0])
    let second ← first.execute chain context 30 (.finishMtcShop [])
    second.execute chain context 30 (.finishMtcShop [])
  have executed : messages.value?.any fun last => last.bandInfo 3 = [(1, 0)] := by
    decide +kernel
  obtain ⟨last, executed, listed⟩ := Fueled.exists_of_value? executed
  simp only [messages, Fueled.bind_eq_pure_iff] at executed
  obtain ⟨stored, storing, started, starting, first, firstTurn, second, secondTurn, thirdTurn⟩ :=
    executed
  have run := (((((@Run.deployed _ _ chain 0).executed _ _ _ storing).executed _ _ _
    starting).executed _ _ _ firstTurn).executed _ _ _ secondTurn).executed _ _ _ thirdTurn
  have listed : last.bandInfo 3 = [(1, 0)] := of_decide_eq_true listed
  obtain ⟨ghost, found, latest⟩ := ((run_ghosts run).1 3).ghost 0 1 0 (by rw [listed]; rfl)
  exact ⟨chain, _, last, ghost, run, listed, found, latest⟩

end Contract

end EmojiBattler.Game
