import EmojiBattler.Library.Pairing
import EmojiBattler.Library.Runs
import EmojiBattler.Mtc.Ghost
import EmojiBattler.Mtc.Setup
import EmojiBattler.Shop.Coin

/-! # The sessions of the game pallet -/

namespace EmojiBattler.Pallet

open EmojiBattler.Emo EmojiBattler.Mtc
open Function (update)
open Pairing

/-- The errors that a start of a match or a turn can return. -/
inductive Error where
  | emoBasesNone
  | fixedEmoBaseIdsNone
  | builtEmoBaseIdsNone
  | playerEpNone
  | playerSessionToMainNone
  | playerSeedNone
  | playerPoolNone
  | playerHealthNone
  | playerGradeAndBoardHistoryNone
  | playerGhostsNone
  | playerGhostStatesNone
  | playerBattleGhostIndexNone
  | deckBuildingFailed
  | invalidShopPlayerOperations
  | battleFailed
  | battleGhostSelectionFailed
  | maxTurnExceeded
  /-- A panic aborts a call like an error. -/
  | panicked
deriving DecidableEq

/-- A ghost with its account and its EP. -/
abbrev PlayerGhost (AccountId : Type) := AccountId × Nat × Ghost

/-- The storage.  A map is the function of its values. -/
structure Storage (AccountId : Type) where
  emoBases : Option Bases := none
  deckFixedEmoBaseIds : Option (List Nat) := none
  deckBuiltEmoBaseIds : Option (List Nat) := none
  matchmakingGhosts : Nat → Option (List (PlayerGhost AccountId)) := fun _ => none
  playerEp : AccountId → Option Nat := fun _ => none
  playerMainToSession : AccountId → Option AccountId := fun _ => none
  playerSessionToMain : AccountId → Option AccountId := fun _ => none
  playerSeed : AccountId → Option Nat := fun _ => none
  playerPool : AccountId → Option (List Emo) := fun _ => none
  playerHealth : AccountId → Option Nat := fun _ => none
  playerGradeAndBoardHistory : AccountId → Option (List GradeAndBoard) := fun _ => none
  playerUpgradeCoin : AccountId → Option Nat := fun _ => none
  playerGhosts : AccountId → Option (List (PlayerGhost AccountId)) := fun _ => none
  playerGhostStates : AccountId → Option (List GhostState) := fun _ => none
  playerBattleGhostIndex : AccountId → Option Nat := fun _ => none
  playerFirstAirdropEligible : AccountId → Option Bool := fun _ => none

/-- The randomness of the chain, and `choose_ghosts`, which this repository no
longer defines as the pallet calls it. -/
structure Outside (AccountId : Type) where
  getRandomSeed : String → Nat
  chooseGhosts : Nat → Nat → (Nat → Option (List (PlayerGhost AccountId))) →
    List (PlayerGhost AccountId)

variable {AccountId : Type} [DecidableEq AccountId]

namespace Storage

def cleanupFinished (main : AccountId) (storage : Storage AccountId) : Storage AccountId :=
  { storage with
    playerPool := update storage.playerPool main none
    playerHealth := update storage.playerHealth main none
    playerGradeAndBoardHistory := update storage.playerGradeAndBoardHistory main none
    playerUpgradeCoin := update storage.playerUpgradeCoin main none
    playerGhosts := update storage.playerGhosts main none
    playerGhostStates := update storage.playerGhostStates main none
    playerBattleGhostIndex := update storage.playerBattleGhostIndex main none }

/-- The penalty for a match that was not finished. -/
def penalizeUnfinished (main : AccountId) (storage : Storage AccountId) :
    Except Error (Storage AccountId) :=
  if (storage.playerPool main).isSome then do
    let storage := storage.cleanupFinished main
    let ep ← (storage.playerEp main).elim (.error .playerEpNone) .ok
    return { storage with
      playerEp := update storage.playerEp main (some (ep - epUnfinishPenalty)) }
  else return storage

def matchmake (outside : Outside AccountId) (accountId : AccountId) (seed : Nat)
    (storage : Storage AccountId) : Storage AccountId :=
  let ep := (storage.playerEp accountId).getD initialEp
  { storage with
    playerEp := update storage.playerEp accountId (some ep)
    playerGhosts := update storage.playerGhosts accountId
      (some (outside.chooseGhosts ep seed storage.matchmakingGhosts))
    playerGhostStates := update storage.playerGhostStates accountId
      (some buildInitialGhostStates) }

/-- `_start_mtc` -/
def startMtcOf (outside : Outside AccountId) (main session : AccountId)
    (deckEmoBaseIds : List Nat) (storage : Storage AccountId) :
    Except Error (Storage AccountId) := do
  let storage ← storage.penalizeUnfinished main
  let seed := outside.getRandomSeed "start_mtc"
  let emoBases ← storage.emoBases.elim (.error .emoBasesNone) .ok
  let fixedEmoBaseIds ← storage.deckFixedEmoBaseIds.elim (.error .fixedEmoBaseIdsNone) .ok
  let builtEmoBaseIds ← storage.deckBuiltEmoBaseIds.elim (.error .builtEmoBaseIdsNone) .ok
  let pool ← (buildPool deckEmoBaseIds emoBases fixedEmoBaseIds builtEmoBaseIds).mapError
    fun _ => Error.deckBuildingFailed
  let storage := { storage with
    playerMainToSession := update storage.playerMainToSession main (some session)
    playerSessionToMain := update storage.playerSessionToMain session (some main)
    playerHealth := update storage.playerHealth main (some playerInitialHealth)
    playerSeed := update storage.playerSeed main (some seed)
    playerPool := update storage.playerPool main (some pool)
    playerGradeAndBoardHistory := update storage.playerGradeAndBoardHistory main (some [])
    playerBattleGhostIndex := update storage.playerBattleGhostIndex main (some 0)
    playerUpgradeCoin := update storage.playerUpgradeCoin main (Shop.getUpgradeCoin 2) }
  return storage.matchmake outside main seed

/-- `start_mtc`, signed by the main account. -/
def startMtc (outside : Outside AccountId) (main session : AccountId) (deckEmoBaseIds : List Nat)
    (storage : Storage AccountId) : Except Error (Storage AccountId) :=
  storage.startMtcOf outside main session deckEmoBaseIds

/-- The account that `start_mtc_by_session` and `finish_mtc_shop` act for. -/
def mainOfSession (session : AccountId) (storage : Storage AccountId) : Except Error AccountId :=
  (storage.playerSessionToMain session).elim (.error .playerSessionToMainNone) .ok

/-- `start_mtc_by_session`, signed by the session key. -/
def startMtcBySession (outside : Outside AccountId) (session : AccountId)
    (deckEmoBaseIds : List Nat) (storage : Storage AccountId) :
    Except Error (Storage AccountId) := do
  let main ← storage.mainOfSession session
  storage.startMtcOf outside main session deckEmoBaseIds

/-- The two maps of the sessions agree. -/
def SessionsPaired (storage : Storage AccountId) : Prop :=
  Paired storage.playerMainToSession storage.playerSessionToMain

omit [DecidableEq AccountId] in
@[simp] theorem elim_error_eq_ok_iff {found : Option α} {error : Error} {value : α} :
    found.elim (Except.error error) Except.ok = .ok value ↔ found = some value := by
  cases found <;> simp

theorem penalizeUnfinished_sessions {main : AccountId} {before after : Storage AccountId}
    (performed : before.penalizeUnfinished main = .ok after) :
    after.playerMainToSession = before.playerMainToSession ∧
      after.playerSessionToMain = before.playerSessionToMain := by
  unfold penalizeUnfinished at performed
  split at performed
  · simp only [Result.bind_eq_ok_iff, Result.pure_eq_ok_iff] at performed
    obtain ⟨_, _, rfl⟩ := performed
    exact ⟨rfl, rfl⟩
  · cases performed
    exact ⟨rfl, rfl⟩

/-- A start writes the session under both keys and no other session. -/
theorem startMtcOf_sessions {outside : Outside AccountId} {main session : AccountId}
    {deckEmoBaseIds : List Nat} {before after : Storage AccountId}
    (performed : before.startMtcOf outside main session deckEmoBaseIds = .ok after) :
    after.playerMainToSession = update before.playerMainToSession main (some session) ∧
      after.playerSessionToMain = update before.playerSessionToMain session (some main) := by
  simp only [startMtcOf, Result.bind_eq_ok_iff, Result.pure_eq_ok_iff] at performed
  obtain ⟨penalized, penalty, _, _, _, _, _, _, _, _, rfl⟩ := performed
  obtain ⟨mains, sessions⟩ := penalizeUnfinished_sessions penalty
  exact ⟨by rw [← mains]; rfl, by rw [← sessions]; rfl⟩

end Storage

/-! ## Runs -/

/-- A transaction that starts a match. -/
inductive Call (AccountId : Type) where
  | startMtc (main session : AccountId) (deckEmoBaseIds : List Nat)
  | startMtcBySession (session : AccountId) (deckEmoBaseIds : List Nat)

def perform (outside : Outside AccountId) (storage : Storage AccountId) :
    Call AccountId → Except Error (Storage AccountId)
  | .startMtc main session deckEmoBaseIds => storage.startMtc outside main session deckEmoBaseIds
  | .startMtcBySession session deckEmoBaseIds =>
      storage.startMtcBySession outside session deckEmoBaseIds

/-- The main account has no other session and the session no other main account. -/
def KeepsSessions (storage : Storage AccountId) : Call AccountId → Prop
  | .startMtc main session _ =>
      Free storage.playerMainToSession main session ∧ Free storage.playerSessionToMain session main
  | .startMtcBySession _ _ => True

/-- From maps that agree, a call leads to maps that agree exactly when it
keeps the sessions. -/
theorem perform_sessionsPaired_iff {outside : Outside AccountId} {call : Call AccountId}
    {before after : Storage AccountId} (paired : before.SessionsPaired)
    (performed : perform outside before call = .ok after) :
    after.SessionsPaired ↔ KeepsSessions before call := by
  cases call with
  | startMtc main session deckEmoBaseIds =>
      obtain ⟨mains, sessions⟩ := Storage.startMtcOf_sessions performed
      rw [Storage.SessionsPaired, mains, sessions]
      exact paired_update_iff paired
  | startMtcBySession session deckEmoBaseIds =>
      simp only [perform, Storage.startMtcBySession, Storage.mainOfSession, Result.bind_eq_ok_iff,
        Storage.elim_error_eq_ok_iff] at performed
      obtain ⟨main, found, performed⟩ := performed
      obtain ⟨mains, sessions⟩ := Storage.startMtcOf_sessions performed
      refine iff_of_true ?_ trivial
      rw [Storage.SessionsPaired, mains, sessions]
      refine paired.update (fun other registered => ?_) (fun other registered => ?_)
      · rw [(paired main session).mpr found] at registered
        exact (Option.some.inj registered).symm
      · rw [found] at registered
        exact (Option.some.inj registered).symm

/-- In every run, the maps agree in all states that are reached exactly when
every call keeps the sessions. -/
theorem sessionsPaired_iff {outside : Outside AccountId} {calls : List (Call AccountId)}
    {genesis last : Storage AccountId} (paired : genesis.SessionsPaired)
    (performed : calls.foldlM (perform outside) genesis = .ok last) :
    (∀ done rest storage, calls = done ++ rest →
      done.foldlM (perform outside) genesis = .ok storage → storage.SessionsPaired) ↔
    ∀ done call rest storage, calls = done ++ call :: rest →
      done.foldlM (perform outside) genesis = .ok storage → KeepsSessions storage call := by
  have general := @Runs.invariant_iff _ _
    (fun before call after => perform outside before call = .ok after) genesis
    (fun _ storage => storage.SessionsPaired) (fun _ storage call => KeepsSessions storage call)
    calls paired (fun _ _ holds executed => perform_sessionsPaired_iff holds executed)
  simp only [Runs.reaches_foldlM_iff] at general
  rw [general]
  constructor
  · intro keeps done call rest storage whole reached
    -- The whole run succeeds, so this call does.
    rw [whole, List.foldlM_append, Result.bind_eq_ok_iff] at performed
    obtain ⟨middle, before, performed⟩ := performed
    cases reached.symm.trans before
    rw [List.foldlM_cons, Result.bind_eq_ok_iff] at performed
    obtain ⟨next, executed, _⟩ := performed
    exact keeps done call rest storage next whole reached executed
  · intro keeps done call rest storage _ whole reached _
    exact keeps done call rest storage whole reached

section Replaced

def outside : Outside Nat where
  getRandomSeed _ := 7
  chooseGhosts _ _ _ := []

def genesis : Storage Nat where
  emoBases := some fun id => if id < 6 then some ⟨id, .human, id + 1, 1, 1, []⟩ else none
  deckFixedEmoBaseIds := some []
  deckBuiltEmoBaseIds := some [0, 1, 2, 3, 4, 5]

/-- Two starts of account 0, the second one with another session. -/
def replacingCalls : List (Call Nat) :=
  [.startMtc 0 1 [0, 1, 2, 3, 4, 5], .startMtc 0 2 [0, 1, 2, 3, 4, 5]]

theorem replacingCalls_run : ∃ last, replacingCalls.foldlM (perform outside) genesis = .ok last ∧
    last.playerSessionToMain 1 = some 0 ∧ last.playerMainToSession 0 = some 2 := ⟨_, rfl, rfl, rfl⟩

/-- The session that was replaced still acts for its old main account. -/
theorem replaced_session_acts :
    ∃ last, replacingCalls.foldlM (perform outside) genesis = .ok last ∧
      last.mainOfSession 1 = .ok 0 ∧ last.playerMainToSession 0 ≠ some 1 := by
  obtain ⟨last, performed, session, main⟩ := replacingCalls_run
  refine ⟨last, performed, Storage.elim_error_eq_ok_iff.mpr session, ?_⟩
  rw [main]
  decide

/-- The second of these starts does not keep the sessions. -/
theorem sessionsPaired_iff_replacingCalls :
    ¬ ∀ done call rest storage, replacingCalls = done ++ call :: rest →
      done.foldlM (perform outside) genesis = .ok storage → KeepsSessions storage call := by
  obtain ⟨last, performed, session, main⟩ := replacingCalls_run
  intro keeps
  have initial : genesis.SessionsPaired := paired_none
  have paired := (sessionsPaired_iff initial performed).mpr keeps replacingCalls [] last
    (by rw [List.append_nil]) performed
  have registered := (paired 0 1).mpr session
  rw [main] at registered
  exact absurd registered (by decide)

end Replaced

end EmojiBattler.Pallet
