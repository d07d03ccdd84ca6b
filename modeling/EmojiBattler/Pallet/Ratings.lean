import EmojiBattler.Pallet.Game

/-! # EP on the chain

A start that abandons a match subtracts the penalty and does not compare the
difference with the minimum, unlike `reduce_ep`. -/

namespace EmojiBattler.Pallet

open EmojiBattler.Mtc
open Function (update)

@[simp] theorem Dispatched.of_eq_pure_iff {result : Except Error α} {value : α} :
    Dispatched.of result = pure value ↔ result = .ok value := by
  change some result = some (.ok value) ↔ _
  simp

@[simp] theorem Dispatched.get_eq_pure_iff {stored : Option α} {missing : Error} {value : α} :
    Dispatched.get stored missing = pure value ↔ stored = some value := by
  rw [Dispatched.get, Dispatched.of_eq_pure_iff, Storage.elim_error_eq_ok_iff]

variable {AccountId : Type} [DecidableEq AccountId]

/-! ## What a call does to the stored EPs -/

namespace Storage

/-- The EP that a start leaves. -/
structure StartsEp (main : AccountId) (before after : Storage AccountId) : Prop where
  others : ∀ other, other ≠ main → after.playerEp other = before.playerEp other
  abandoned : (before.playerPool main).isSome → ∃ ep, before.playerEp main = some ep ∧
    after.playerEp main = some (ep - epUnfinishPenalty)
  idle : before.playerPool main = none →
    after.playerEp main = some ((before.playerEp main).getD initialEp)

theorem startMtcOf_startsEp {outside : Outside AccountId} {main session : AccountId}
    {deckEmoBaseIds : List Nat} {before after : Storage AccountId}
    (performed : before.startMtcOf outside main session deckEmoBaseIds = .ok after) :
    StartsEp main before after := by
  simp only [startMtcOf, Result.bind_eq_ok_iff, Result.pure_eq_ok_iff] at performed
  obtain ⟨penalized, penalty, _, _, _, _, _, _, _, _, rfl⟩ := performed
  unfold penalizeUnfinished at penalty
  split at penalty
  · rename_i playing
    simp only [Result.bind_eq_ok_iff, elim_error_eq_ok_iff, Result.pure_eq_ok_iff] at penalty
    obtain ⟨ep, found, rfl⟩ := penalty
    constructor
    · intro other different
      simp only [matchmake, Function.update_of_ne different, cleanupFinished]
    · intro _
      refine ⟨ep, found, ?_⟩
      simp only [matchmake, Function.update_self, Option.getD_some]
    · intro idle
      rw [idle] at playing
      cases playing
  · rename_i idle
    cases penalty
    constructor
    · intro other different
      simp only [matchmake, Function.update_of_ne different]
    · intro playing
      exact absurd playing idle
    · intro _
      simp only [matchmake, Function.update_self]

variable {calculateNewEp : Nat → Nat → List Nat → Nat}

/-- A turn leaves an EP alone or replaces it by one that `calculate_new_ep`
returned. -/
def RatesEp (calculateNewEp : Nat → Nat → List Nat → Nat) (before after : Storage AccountId) :
    Prop :=
  ∀ accountId, after.playerEp accountId = before.playerEp accountId ∨
    ∃ ep place ghostEps, after.playerEp accountId = some (calculateNewEp ep place ghostEps)

theorem finishMtc_ratesEp {accountId : AccountId} {place : Nat} {ghostStates : List GhostState}
    {ghostEps : List Nat} {history : List GradeAndBoard} {before after : Storage AccountId}
    (performed : before.finishMtc calculateNewEp accountId place ghostStates ghostEps history =
      .ok after) : RatesEp calculateNewEp before after := by
  simp only [finishMtc, updateEp, Result.bind_eq_ok_iff, Result.pure_eq_ok_iff] at performed
  obtain ⟨_, ⟨ep, _, rfl⟩, rfl⟩ := performed
  intro other
  have written : ∀ storage : Storage AccountId,
      storage.playerEp = update before.playerEp accountId
        (some (calculateNewEp ep place (sortedGhostEps ghostStates ghostEps))) →
      storage.playerEp other = before.playerEp other ∨
        ∃ ep place ghostEps, storage.playerEp other = some (calculateNewEp ep place ghostEps) := by
    intro storage same
    by_cases own : other = accountId
    · subst own
      rw [same, Function.update_self]
      exact .inr ⟨_, _, _, rfl⟩
    · rw [same, Function.update_of_ne own]
      exact .inl rfl
  apply written
  dsimp only [cleanupFinished]
  split <;> rfl

theorem finish_ratesEp {surroundings : Surroundings AccountId} {accountId : AccountId}
    {grade newSeed battleGhostIndex health : Nat} {board : Board} {upgradeCoin : Option Nat}
    {ghostStates : List GhostState} {ghostEps : List Nat} {history : List GradeAndBoard}
    {finalPlace : Option Nat} {emoBases : Emo.Bases} {before after : Storage AccountId}
    (performed : before.finish calculateNewEp surroundings accountId grade board newSeed
      upgradeCoin battleGhostIndex health ghostStates ghostEps history finalPlace emoBases =
      .ok after) : RatesEp calculateNewEp before after := by
  cases finalPlace with
  | some place =>
      simp only [finish, Result.bind_eq_ok_iff, Result.pure_eq_ok_iff] at performed
      obtain ⟨finished, ended, rfl⟩ := performed
      have rated := finishMtc_ratesEp ended
      exact rated
  | none =>
      simp only [finish, Result.bind_eq_ok_iff, Result.pure_eq_ok_iff] at performed
      obtain ⟨finished, ended, rfl⟩ := performed
      unfold finishBattle at ended
      split at ended
      · cases ended
      · simp only [Result.bind_eq_ok_iff, Result.pure_eq_ok_iff] at ended
        obtain ⟨_, _, rfl⟩ := ended
        exact fun _ => .inl rfl

theorem finishMtcShop_ratesEp {surroundings : Surroundings AccountId} {session : AccountId}
    {playerOperations : List Shop.PlayerOperation} {before after : Storage AccountId}
    (performed : before.finishMtcShop calculateNewEp surroundings session playerOperations =
      pure after) : RatesEp calculateNewEp before after := by
  simp only [finishMtcShop, finishMtcShopOf, bounded_bind_eq_pure_iff, Dispatched.of_eq_pure_iff]
    at performed
  obtain ⟨_, _, _, _, _, _, _, _, _, _, _, _, _, _, _, _, _, _, _, _, finished⟩ := performed
  exact finish_ratesEp finished

end Storage

/-! ## Runs -/

/-- A call of the pallet. -/
inductive Extrinsic (AccountId : Type) where
  | start (call : Call AccountId)
  | finishMtcShop (session : AccountId) (playerOperations : List Shop.PlayerOperation)

structure Transaction (AccountId : Type) where
  surroundings : Surroundings AccountId
  extrinsic : Extrinsic AccountId

section Dispatch

variable (calculateNewEp : Nat → Nat → List Nat → Nat)

def dispatch (storage : Storage AccountId) (transaction : Transaction AccountId) :
    Dispatched (Storage AccountId) :=
  match transaction.extrinsic with
  | .start call => .of (perform transaction.surroundings.outside storage call)
  | .finishMtcShop session playerOperations =>
      storage.finishMtcShop calculateNewEp transaction.surroundings session playerOperations

/-- The calls are `#[transactional]`: one that fails leaves the storage. -/
def execute (storage : Storage AccountId) (transaction : Transaction AccountId) :
    Storage AccountId :=
  match (dispatch calculateNewEp storage transaction).run with
  | some (.ok after) => after
  | _ => storage

/-- The storage after the transactions. -/
def executeAll (transactions : List (Transaction AccountId)) (genesis : Storage AccountId) :
    Storage AccountId :=
  transactions.foldl (execute calculateNewEp) genesis

end Dispatch

variable {calculateNewEp : Nat → Nat → List Nat → Nat}

theorem execute_of_dispatch {before after : Storage AccountId}
    {transaction : Transaction AccountId}
    (dispatched : dispatch calculateNewEp before transaction = pure after) :
    execute calculateNewEp before transaction = after := by
  unfold execute
  rw [dispatched]
  rfl

theorem execute_of_not_dispatch {before : Storage AccountId} {transaction : Transaction AccountId}
    (failed : ¬ ∃ after, dispatch calculateNewEp before transaction = pure after) :
    execute calculateNewEp before transaction = before := by
  unfold execute
  split
  · rename_i after dispatched
    exact absurd ⟨after, dispatched⟩ failed
  · rfl

def Storage.EpsAtLeastMin (storage : Storage AccountId) : Prop :=
  ∀ accountId ep, storage.playerEp accountId = some ep → minEp ≤ ep

/-- The account that a call starts a match for. -/
def Extrinsic.startedMain (storage : Storage AccountId) : Extrinsic AccountId → Option AccountId
  | .start (.startMtc main _ _) => some main
  | .start (.startMtcBySession session _) => storage.playerSessionToMain session
  | .finishMtcShop _ _ => none

/-- A start that abandons a match finds more EP than it subtracts. -/
def AffordsPenalty (storage : Storage AccountId) (extrinsic : Extrinsic AccountId) : Prop :=
  ∀ main ep, extrinsic.startedMain storage = some main → (storage.playerPool main).isSome →
    storage.playerEp main = some ep → epUnfinishPenalty < ep

theorem Storage.StartsEp.epsAtLeastMin_iff {main : AccountId} {before after : Storage AccountId}
    (starts : StartsEp main before after) (least : before.EpsAtLeastMin) :
    after.EpsAtLeastMin ↔ ((before.playerPool main).isSome →
      ∀ ep, before.playerEp main = some ep → epUnfinishPenalty < ep) := by
  have others : ∀ other ep, other ≠ main → after.playerEp other = some ep → minEp ≤ ep := by
    intro other ep different stored
    rw [starts.others other different] at stored
    exact least other ep stored
  cases pool : before.playerPool main with
  | some emos =>
      obtain ⟨ep, found, left⟩ := starts.abandoned (by rw [pool]; rfl)
      constructor
      · intro holds _ other stored
        cases found.symm.trans stored
        have bound : minEp ≤ ep - epUnfinishPenalty := holds main _ left
        simp only [minEp] at bound
        omega
      · intro affords accountId other stored
        by_cases own : accountId = main
        · rw [own, left] at stored
          cases stored
          have enough := affords rfl ep found
          simp only [minEp]
          omega
        · exact others accountId other own stored
  | none =>
      refine iff_of_true (fun accountId ep stored => ?_) (fun playing => nomatch playing)
      by_cases own : accountId = main
      · rw [own, starts.idle pool] at stored
        cases stored
        cases found : before.playerEp main with
        | some ep => exact least main ep found
        | none => decide
      · exact others accountId ep own stored

/-- A call that succeeds keeps the minimum exactly when it affords the
penalty. -/
theorem dispatch_epsAtLeastMin_iff {transaction : Transaction AccountId}
    {before after : Storage AccountId}
    (clamps : ∀ ep place ghostEps, minEp ≤ calculateNewEp ep place ghostEps)
    (least : before.EpsAtLeastMin)
    (dispatched : dispatch calculateNewEp before transaction = pure after) :
    after.EpsAtLeastMin ↔ AffordsPenalty before transaction.extrinsic := by
  obtain ⟨surroundings, extrinsic⟩ := transaction
  cases extrinsic with
  | start call =>
      simp only [dispatch, Dispatched.of_eq_pure_iff] at dispatched
      cases call with
      | startMtc main session deckEmoBaseIds =>
          rw [(Storage.startMtcOf_startsEp dispatched).epsAtLeastMin_iff least]
          constructor
          · intro affords main' ep started playing found
            cases started
            exact affords playing ep found
          · intro affords playing ep found
            exact affords main ep rfl playing found
      | startMtcBySession session deckEmoBaseIds =>
          simp only [perform, Storage.startMtcBySession, Storage.mainOfSession,
            Result.bind_eq_ok_iff, Storage.elim_error_eq_ok_iff] at dispatched
          obtain ⟨main, acts, dispatched⟩ := dispatched
          rw [(Storage.startMtcOf_startsEp dispatched).epsAtLeastMin_iff least]
          constructor
          · intro affords main' ep started playing found
            cases acts.symm.trans started
            exact affords playing ep found
          · intro affords playing ep found
            exact affords main ep acts playing found
  | finishMtcShop session playerOperations =>
      have rated := Storage.finishMtcShop_ratesEp dispatched
      refine iff_of_true (fun accountId ep stored => ?_) (fun main ep started => by cases started)
      rcases rated accountId with kept | ⟨_, _, _, written⟩
      · exact least accountId ep (kept.symm.trans stored)
      · cases written.symm.trans stored
        exact clamps _ _ _

/-- In every run, the stored EPs are at least the minimum in all states exactly
when no start that succeeds abandons a match with 60 EP or less. -/
theorem eps_at_least_min_iff {genesis : Storage AccountId}
    {transactions : List (Transaction AccountId)}
    (clamps : ∀ ep place ghostEps, minEp ≤ calculateNewEp ep place ghostEps ∧
      calculateNewEp ep place ghostEps ≤ maxEp)
    (initial : genesis.EpsAtLeastMin) :
    (∀ done rest, transactions = done ++ rest →
      (executeAll calculateNewEp done genesis).EpsAtLeastMin) ↔
    ∀ done transaction rest after, transactions = done ++ transaction :: rest →
      dispatch calculateNewEp (executeAll calculateNewEp done genesis) transaction = pure after →
      AffordsPenalty (executeAll calculateNewEp done genesis) transaction.extrinsic := by
  have general := @Runs.foldl_invariant_iff _ _ genesis (execute calculateNewEp)
    (fun _ storage => storage.EpsAtLeastMin)
    (fun _ storage transaction => ∀ after,
      dispatch calculateNewEp storage transaction = pure after →
      AffordsPenalty storage transaction.extrinsic)
    transactions initial (fun {done transaction} least => by
      have floor := fun ep place ghostEps => (clamps ep place ghostEps).1
      by_cases succeeds : ∃ after, dispatch calculateNewEp
          (done.foldl (execute calculateNewEp) genesis) transaction = pure after
      · obtain ⟨after, dispatched⟩ := succeeds
        rw [execute_of_dispatch dispatched, dispatch_epsAtLeastMin_iff floor least dispatched]
        exact ⟨fun affords _ _ => affords, fun affords => affords after dispatched⟩
      · rw [execute_of_not_dispatch succeeds]
        exact iff_of_true least fun after dispatched => absurd ⟨after, dispatched⟩ succeeds)
  unfold executeAll
  rw [general]
  constructor
  · intro affords done transaction rest after whole
    exact affords done transaction rest whole after
  · intro affords done transaction rest whole after
    exact affords done transaction rest after whole

section Abandoned

/-- A float computation that no transaction below comes to. -/
def keptEp (ep _place : Nat) (_ghostEps : List Nat) : Nat := max minEp (min ep maxEp)

def restart : Transaction Nat where
  surroundings := { outside, sampler := .first, fuel := 0, shopBoardEmoIds := 0, battleEmoIds := 0 }
  extrinsic := .start (.startMtc 0 1 [0, 1, 2, 3, 4, 5])

/-- The sixth start in a row leaves no EP. -/
theorem abandoning_takes_all_ep :
    genesis.EpsAtLeastMin ∧
      ¬ (executeAll keptEp (List.replicate 6 restart) genesis).EpsAtLeastMin := by
  refine ⟨fun _ _ stored => (nomatch stored), fun least => ?_⟩
  have nothing : (executeAll keptEp (List.replicate 6 restart) genesis).playerEp 0 = some 0 := rfl
  exact absurd (least 0 0 nothing) (by decide)

/-- The second start affords its penalty. -/
theorem eps_at_least_min_iff_two_starts :
    (executeAll keptEp [restart, restart] genesis).playerEp 0 = some 240 ∧
      (executeAll keptEp [restart, restart] genesis).EpsAtLeastMin := by
  have clamps : ∀ ep place ghostEps, minEp ≤ keptEp ep place ghostEps ∧
      keptEp ep place ghostEps ≤ maxEp :=
    fun ep _ _ => ⟨Nat.le_max_left _ _, Nat.max_le.mpr ⟨by decide, Nat.min_le_right _ _⟩⟩
  have initial : genesis.EpsAtLeastMin := fun _ _ stored => nomatch stored
  refine ⟨rfl, (@eps_at_least_min_iff _ _ keptEp genesis [restart, restart] clamps initial).mpr ?_
    [restart, restart] [] rfl⟩
  intro done transaction rest after whole _ main ep started playing found
  cases done with
  | nil =>
      cases whole
      cases started
      cases playing
  | cons first done =>
      cases done with
      | nil =>
          cases whole
          cases started
          cases found
          decide
      | cons second done => simp at whole

end Abandoned

end EmojiBattler.Pallet
