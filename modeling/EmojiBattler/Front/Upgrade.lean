import EmojiBattler.Front.State
import EmojiBattler.Game.Matches

/-! # The price of an upgrade

The contract and the front each keep the grade and the price of the next
upgrade.  Both follow one rule and differ in the price that an upgrade puts
up. -/

namespace EmojiBattler.Front

open EmojiBattler.Mtc EmojiBattler.Mtc.Storage EmojiBattler.Game
open EmojiBattler.Mtc.Shop (PlayerOperation TurnState getUpgradeCoin decreaseUpgradeCoin)

/-! ## The front -/

/-- An upgrade without a price is an exception. -/
def upgradeFn (mtcState : MtcState) (shopState : State) : Option (MtcState × State) := do
  let upgradeCoin ← mtcState.upgradeCoin
  return ({ mtcState with
      grade := mtcState.grade + 1
      upgradeCoin := getUpgradeCoin (mtcState.grade + 2) },
    { shopState with
      playerOperations := shopState.playerOperations ++ [.upgrade]
      coin := shopState.coin - upgradeCoin })

/-- The turn and the price that `finishBattle` leaves when the match goes on. -/
def finishBattle (mtcState : MtcState) : MtcState :=
  { mtcState with
    turn := mtcState.turn + 1
    upgradeCoin := mtcState.upgradeCoin.map fun coin => max (coin - 1) 0 }

/-- An operation, as far as the price goes: the others leave it alone. -/
def operate (states : MtcState × State) : PlayerOperation → Option (MtcState × State)
  | .upgrade => upgradeFn states.1 states.2
  | _ => some states

/-- The state after turns with these operations, the latest turn first. -/
def playTurns : List (List PlayerOperation) → Option MtcState
  | [] => some (buildInitialMtcState (getUpgradeCoin 2))
  | ops :: earlier => do
      let mtcState ← playTurns earlier
      let shopState ← (buildInitialState mtcState.turn).toOption
      let (mtcState, _) ← ops.foldlM operate (mtcState, shopState)
      return finishBattle mtcState

/-! ## The rule -/

def countUpgrades (turns : List (List PlayerOperation)) : Nat := turns.flatten.count .upgrade

/-- The number of turns that were finished since the last upgrade. -/
def turnsSinceUpgrade (turns : List (List PlayerOperation)) : Nat :=
  (turns.takeWhile fun ops => .upgrade ∉ ops).length + 1

/-- The price after the turns, where `offer` is the one that an upgrade to a
grade puts up. -/
def priceAfter (offer : Nat → Option Nat) : List (List PlayerOperation) → Option Nat
  | [] => getUpgradeCoin 2
  | ops :: earlier => decreaseUpgradeCoin
      (if .upgrade ∈ ops then offer (1 + countUpgrades (ops :: earlier))
      else priceAfter offer earlier)

theorem decreaseUpgradeCoin_eq (price : Option Nat) :
    decreaseUpgradeCoin price = price.map (· - 1) := by
  cases price with
  | none => rfl
  | some coin =>
      unfold decreaseUpgradeCoin
      dsimp only [Option.map_some]
      split
      · rfl
      · rename_i free
        rw [Nat.eq_zero_of_not_pos free]

theorem countUpgrades_cons (ops : List PlayerOperation) (earlier : List (List PlayerOperation)) :
    countUpgrades (ops :: earlier) = ops.count .upgrade + countUpgrades earlier := by
  rw [countUpgrades, List.flatten_cons, List.count_append]
  rfl

/-- The price falls by one with every turn since it was put up. -/
theorem priceAfter_eq (offer : Nat → Option Nat) (turns : List (List PlayerOperation)) :
    priceAfter offer turns =
      if countUpgrades turns = 0 then (getUpgradeCoin 2).map (· - turns.length)
      else (offer (1 + countUpgrades turns)).map (· - turnsSinceUpgrade turns) := by
  induction turns with
  | nil => rfl
  | cons ops earlier ih =>
      rw [priceAfter, decreaseUpgradeCoin_eq, turnsSinceUpgrade]
      by_cases upgraded : .upgrade ∈ ops
      · have positive := List.count_pos_iff.mpr upgraded
        have counted : countUpgrades (ops :: earlier) ≠ 0 := by
          rw [countUpgrades_cons]
          omega
        rw [if_pos upgraded, if_neg counted, List.takeWhile_cons_of_neg (by simpa using upgraded)]
        rfl
      · have same : countUpgrades (ops :: earlier) = countUpgrades earlier := by
          rw [countUpgrades_cons, List.count_eq_zero.mpr upgraded, Nat.zero_add]
        rw [if_neg upgraded, ih, same, List.takeWhile_cons_of_pos (by simpa using upgraded)]
        split
        · simp only [Option.map_map, Function.comp_def, Nat.sub_sub, List.length_cons]
        · simp only [Option.map_map, Function.comp_def, Nat.sub_sub, List.length_cons,
            turnsSinceUpgrade]

/-! ## The operations of a turn -/

section Operations

variable {env : Env}

theorem getUpgradeCoin_isSome {grade : Nat} (lower : 2 ≤ grade) (upper : grade ≤ 6) :
    (getUpgradeCoin grade).isSome := by
  rcases (by omega : grade = 2 ∨ grade = 3 ∨ grade = 4 ∨ grade = 5 ∨ grade = 6) with
    rfl | rfl | rfl | rfl | rfl <;> rfl

theorem mem_cons_of_ne_upgrade {operation : PlayerOperation} {rest : List PlayerOperation}
    (other : operation ≠ .upgrade) : .upgrade ∈ operation :: rest ↔ .upgrade ∈ rest := by
  rw [List.mem_cons, or_iff_right (Ne.symm other)]

/-- An upgrade on the chain puts up the price of the grade it reaches. -/
theorem applyOperation_price {fuel turn : Nat} {catalog : Mtc.Shop.Catalog}
    {operation : PlayerOperation} {before after : TurnState}
    (performed : Mtc.Shop.applyOperation env fuel catalog turn before operation = pure after) :
    if operation = .upgrade then
      before.grade < 6 ∧ after.grade = before.grade + 1 ∧
        after.upgradeCoin = getUpgradeCoin (before.grade + 1)
    else after.grade = before.grade ∧ after.upgradeCoin = before.upgradeCoin := by
  cases operation with
  | buy mtcEmoId index =>
      simp only [Mtc.Shop.applyOperation, Mtc.Shop.buy, Fueled.bind_eq_pure_iff,
        Fueled.pure_eq_pure_iff] at performed
      obtain ⟨_, _, _, _, rfl⟩ := performed
      simp
  | sell index =>
      simp only [Mtc.Shop.applyOperation, Mtc.Shop.sell, Fueled.bind_eq_pure_iff,
        Fueled.pure_eq_pure_iff] at performed
      obtain ⟨_, _, _, _, rfl⟩ := performed
      simp
  | move indexes =>
      simp only [Mtc.Shop.applyOperation, Fueled.bind_eq_pure_iff, Fueled.pure_eq_pure_iff]
        at performed
      obtain ⟨_, _, rfl⟩ := performed
      simp
  | nextCatalogLine =>
      simp only [Mtc.Shop.applyOperation, Fueled.of_eq_pure_iff, Mtc.Shop.nextCatalogLine,
        Result.bind_eq_ok_iff, Result.pure_eq_ok_iff] at performed
      obtain ⟨_, _, _, _, _, _, rfl⟩ := performed
      simp
  | upgrade =>
      simp only [Mtc.Shop.applyOperation, Fueled.of_eq_pure_iff, Mtc.Shop.upgrade] at performed
      split at performed
      · simp only [Result.bind_eq_ok_iff, ensure_eq_ok_iff, Result.pure_eq_ok_iff] at performed
        obtain ⟨_, _, _, lower, rfl⟩ := performed
        simpa [Mtc.Shop.lastGrade] using lower
      · cases performed

theorem foldlM_applyOperation_price {fuel turn : Nat} {catalog : Mtc.Shop.Catalog}
    {ops : List PlayerOperation} {before after : TurnState}
    (performed : ops.foldlM (Mtc.Shop.applyOperation env fuel catalog turn) before = pure after) :
    after.grade = before.grade + ops.count .upgrade ∧
      after.upgradeCoin = (if .upgrade ∈ ops then getUpgradeCoin after.grade
        else before.upgradeCoin) ∧
      (before.grade ≤ 6 → after.grade ≤ 6) := by
  induction ops generalizing before with
  | nil =>
      rw [List.foldlM_nil, Fueled.pure_eq_pure_iff] at performed
      subst performed
      simp
  | cons operation rest ih =>
      rw [List.foldlM_cons, Fueled.bind_eq_pure_iff] at performed
      obtain ⟨middle, first, performed⟩ := performed
      have price := applyOperation_price first
      obtain ⟨grade, upgradeCoin, bound⟩ := ih performed
      by_cases upgraded : operation = .upgrade
      · subst upgraded
        rw [if_pos rfl] at price
        obtain ⟨lower, middleGrade, middleCoin⟩ := price
        rw [List.count_cons_self, if_pos List.mem_cons_self]
        refine ⟨by omega, ?_, fun _ => bound (by omega)⟩
        rw [upgradeCoin]
        split
        · rfl
        · rename_i none
          rw [middleCoin, grade, middleGrade, List.count_eq_zero.mpr none, Nat.add_zero]
      · rw [if_neg upgraded] at price
        obtain ⟨middleGrade, middleCoin⟩ := price
        rw [List.count_cons_of_ne upgraded]
        refine ⟨by omega, ?_, fun low => bound (by omega)⟩
        rw [upgradeCoin, middleCoin]
        simp only [mem_cons_of_ne_upgrade upgraded]

/-- The front has a price for every upgrade up to the last grade. -/
theorem foldlM_operate {ops : List PlayerOperation} {mtcState : MtcState} {shopState : State}
    (bound : mtcState.grade + ops.count .upgrade ≤ 6) (positive : 1 ≤ mtcState.grade)
    (priced : mtcState.grade < 6 → mtcState.upgradeCoin.isSome) :
    ∃ last, ops.foldlM operate (mtcState, shopState) = some last ∧
      last.1.turn = mtcState.turn ∧
      last.1.grade = mtcState.grade + ops.count .upgrade ∧
      last.1.upgradeCoin = if .upgrade ∈ ops then getUpgradeCoin (last.1.grade + 1)
        else mtcState.upgradeCoin := by
  induction ops generalizing mtcState shopState with
  | nil => exact ⟨_, rfl, rfl, rfl, rfl⟩
  | cons operation rest ih =>
      by_cases upgraded : operation = .upgrade
      · subst upgraded
        rw [List.count_cons_self] at bound
        obtain ⟨coin, found⟩ := Option.isSome_iff_exists.mp (priced (by omega))
        let next : MtcState := { mtcState with
          grade := mtcState.grade + 1
          upgradeCoin := getUpgradeCoin (mtcState.grade + 2) }
        let shop : State := { shopState with
          playerOperations := shopState.playerOperations ++ [.upgrade]
          coin := shopState.coin - coin }
        have first : operate (mtcState, shopState) .upgrade = some (next, shop) := by
          simp [operate, upgradeFn, found, next, shop]
        obtain ⟨last, performed, turn, grade, upgradeCoin⟩ :=
          @ih next shop (by simp only [next]; omega) (Nat.le_add_left 1 _) (fun lower => by
            exact getUpgradeCoin_isSome (Nat.le_add_left 2 _) lower)
        refine ⟨last, ?_, turn, ?_, ?_⟩
        · rw [List.foldlM_cons, first]
          exact performed
        · rw [List.count_cons_self, grade]
          simp only [next]
          omega
        · rw [upgradeCoin, if_pos List.mem_cons_self]
          split
          · rfl
          · rename_i none
            rw [grade, List.count_eq_zero.mpr none]
      · rw [List.count_cons_of_ne upgraded] at bound
        have first : operate (mtcState, shopState) operation = some (mtcState, shopState) := by
          cases operation with
          | upgrade => exact absurd rfl upgraded
          | buy | sell | move | nextCatalogLine => rfl
        obtain ⟨last, performed, turn, grade, upgradeCoin⟩ :=
          @ih mtcState shopState bound positive priced
        refine ⟨last, ?_, turn, ?_, ?_⟩
        · rw [List.foldlM_cons, first]
          exact performed
        · rw [List.count_cons_of_ne upgraded, grade]
        · rw [upgradeCoin]
          simp only [mem_cons_of_ne_upgrade upgraded]

end Operations

/-! ## The contract -/

variable {AccountId : Type} [DecidableEq AccountId]

/-- The grade and the price that the contract stores for a match. -/
def storedPrice (contract : Contract AccountId) (player : AccountId) :
    Option (Nat × Option Nat) :=
  (contract.playerMtcMutable player).map fun mutable =>
    ((mutable.gradeAndBoardHistory.getLast?.getD { grade := 1, board := [] }).grade,
      mutable.upgradeCoin)

/-- A match of the player, with the operations of its turns, the latest turn
first.  In between, messages may do anything that leaves the account alone. -/
inductive MatchRun (chain : Chain AccountId) (player : AccountId) :
    List (List PlayerOperation) → Contract AccountId → Prop where
  | start {context : Context AccountId} {deckEmoBaseIds : List Nat}
      {before after : Contract AccountId} (caller : context.caller = player)
      (started : before.startMtc chain context deckEmoBaseIds = .ok after) :
      MatchRun chain player [] after
  | turn {turns : List (List PlayerOperation)} {context : Context AccountId} {fuel : Nat}
      {ops : List PlayerOperation} {before after : Contract AccountId} {mutable : PlayerMutable}
      (earlier : MatchRun chain player turns before) (caller : context.caller = player)
      (finished : before.finishMtcShop chain context fuel ops = pure after)
      (goesOn : after.playerMtcMutable player = some mutable) :
      MatchRun chain player (ops :: turns) after
  | aside {turns : List (List PlayerOperation)} {before after : Contract AccountId}
      (earlier : MatchRun chain player turns before)
      (executed : Contract.Executes chain before after)
      (kept : after.account player = before.account player) : MatchRun chain player turns after

/-- The record that a turn leaves when the match goes on. -/
theorem finishMtcShop_stored {chain : Chain AccountId} {context : Context AccountId} {fuel : Nat}
    {ops : List PlayerOperation} {before after : Contract AccountId}
    {previous next : PlayerMutable} (short : previous.gradeAndBoardHistory.length ≤ 39)
    (found : before.playerMtcMutable context.caller = some previous)
    (performed : before.finishMtcShop chain context fuel ops = pure after)
    (goesOn : after.playerMtcMutable context.caller = some next) :
    ∃ env board pool seed last, previous.gradeAndBoardHistory.length < 39 ∧
      Mtc.Shop.playTurn env fuel board
        (previous.gradeAndBoardHistory.getLast?.getD { grade := 1, board := [] }).grade
        previous.upgradeCoin ops pool seed (previous.gradeAndBoardHistory.length + 1) 0 =
          pure last ∧
      next.gradeAndBoardHistory = previous.gradeAndBoardHistory ++
        [{ grade := last.grade, board := last.shop.board.intoBoard }] ∧
      next.upgradeCoin = decreaseUpgradeCoin last.upgradeCoin := by
  simp only [Contract.finishMtcShop, Fueled.bind_eq_pure_iff, Fueled.of_eq_pure_iff,
    okOr_eq_ok_iff] at performed
  obtain ⟨emoBases, _, immutable, _, mutable, foundMutable, ⟨turn, grade, board⟩, taken, seed, _,
    ⟨played, playedGrade, upgradeCoin⟩, verified, newSeed, _, ⟨finalPlace, health, states, _⟩, _,
    updated⟩ := performed
  rw [found, Option.some.injEq] at foundMutable
  subst foundMutable
  obtain ⟨rfl, bound⟩ := Contract.getTurn_eq short taken
  have sameGrade :
      (previous.gradeAndBoardHistory.getLast?.getD { grade := 1, board := [] }).grade = grade := by
    simp only [Game.getTurnAndPreviousGradeAndBoard, Mtc.getTurnAndPreviousGradeAndBoard,
      Result.bind_eq_ok_iff, Result.pure_eq_ok_iff, Prod.mk.injEq] at taken
    obtain ⟨_, ⟨_, _, rfl⟩, _, _, _, same, _⟩ := taken
    exact same
  simp only [Mtc.Shop.verifyPlayerOperationsAndUpdate, Fueled.bind_eq_pure_iff,
    Fueled.pure_eq_pure_iff, Prod.mk.injEq] at verified
  obtain ⟨last, turnPlayed, rfl, rfl, rfl⟩ := verified
  simp only [Contract.updateForFinishMtcShop, Result.bind_eq_ok_iff, Result.pure_eq_ok_iff]
    at updated
  obtain ⟨stored, finished, rfl⟩ := updated
  cases finalPlace with
  | some place =>
      have ended := (Contract.finishMtc_accounts finished).2.1
      simp only [Contract.account] at ended
      rw [ended] at goesOn
      cases goesOn
  | none =>
      obtain ⟨index, _, _, rfl⟩ := Contract.finishMtcTurn_accounts finished
      simp only [Function.update_self] at goesOn
      cases goesOn
      rw [sameGrade]
      exact ⟨_, board, immutable.pool, seed, last, by omega, turnPlayed, rfl, rfl⟩

/-- The contract follows the rule with the price of the grade that is reached. -/
theorem MatchRun.stored {chain : Chain AccountId} {player : AccountId}
    {turns : List (List PlayerOperation)} {contract : Contract AccountId}
    (run : MatchRun chain player turns contract) :
    ∃ mutable, contract.playerMtcMutable player = some mutable ∧
      mutable.gradeAndBoardHistory.length = turns.length ∧ turns.length ≤ 39 ∧
      countUpgrades turns ≤ 5 ∧
      storedPrice contract player =
        some (1 + countUpgrades turns, priceAfter getUpgradeCoin turns) := by
  induction run with
  | @start context _ before after caller started =>
      subst caller
      simp only [Contract.startMtc, Result.bind_eq_ok_iff, Result.pure_eq_ok_iff] at started
      obtain ⟨_, _, _, _, _, _, _, _, _, _, _, _, rfl⟩ := started
      simp only [storedPrice, Function.update_self]
      exact ⟨_, rfl, rfl, Nat.zero_le _, Nat.zero_le _, rfl⟩
  | @turn turns _ _ ops before after next _ caller finished goesOn ih =>
      subst caller
      obtain ⟨previous, found, length, short, _, price⟩ := ih
      obtain ⟨env, board, pool, seed, last, bound, played, history, upgradeCoin⟩ :=
        finishMtcShop_stored (length ▸ short) found finished goesOn
      simp only [storedPrice, found, Option.map_some, Option.some.injEq, Prod.mk.injEq] at price
      simp only [Mtc.Shop.playTurn, Mtc.Shop.startTurn, Fueled.bind_eq_pure_iff,
        Fueled.pure_eq_pure_iff] at played
      obtain ⟨_, _, _, ⟨_, _, catalog, _, _, _, rfl⟩, looped⟩ := played
      obtain ⟨grade, coin, upper⟩ := foldlM_applyOperation_price looped
      simp only [price.1, price.2] at grade coin upper
      have counted := countUpgrades_cons ops turns
      refine ⟨next, goesOn, ?_, ?_, ?_, ?_⟩
      · rw [history, List.length_append, length]
        rfl
      · rw [List.length_cons]
        omega
      · omega
      · simp only [storedPrice, goesOn, Option.map_some, history, List.getLast?_concat,
          Option.getD_some, upgradeCoin, coin, priceAfter, Option.some.injEq, Prod.mk.injEq]
        rw [grade, counted]
        refine ⟨by omega, ?_⟩
        rw [Nat.add_assoc, Nat.add_comm (countUpgrades turns)]
  | aside _ _ kept ih =>
      simp only [Contract.account, Account.mk.injEq] at kept
      simpa only [storedPrice, kept.2.2.2] using ih

/-! ## Both sides -/

theorem buildInitialState_ok {turn : Nat} (early : turn ≤ 40) :
    ∃ shopState, buildInitialState turn = .ok shopState := by
  have fits : turn + 2 ≤ u8Max := by
    rw [u8Max]
    omega
  simp only [buildInitialState, Mtc.Shop.getInitialCoinByTurn, addU8, if_pos fits]
  exact ⟨_, rfl⟩

/-- The front follows the rule with the price of the grade after. -/
theorem playTurns_eq {turns : List (List PlayerOperation)} (short : turns.length ≤ 39)
    (upper : countUpgrades turns ≤ 5) :
    ∃ mtcState, playTurns turns = some mtcState ∧ mtcState.turn = turns.length + 1 ∧
      mtcState.grade = 1 + countUpgrades turns ∧
      mtcState.upgradeCoin = priceAfter (fun grade => getUpgradeCoin (grade + 1)) turns := by
  induction turns with
  | nil => exact ⟨_, rfl, rfl, rfl, rfl⟩
  | cons ops earlier ih =>
      rw [List.length_cons] at short
      have counted := countUpgrades_cons ops earlier
      obtain ⟨mtcState, played, turn, grade, upgradeCoin⟩ := ih (by omega) (by omega)
      have priced : mtcState.grade < 6 → mtcState.upgradeCoin.isSome := by
        intro lower
        rw [upgradeCoin, priceAfter_eq]
        split
        · rfl
        · rw [Option.isSome_map]
          exact getUpgradeCoin_isSome (by omega) (by omega)
      obtain ⟨shopState, opened⟩ := buildInitialState_ok (by omega : mtcState.turn ≤ 40)
      obtain ⟨last, operated, sameTurn, lastGrade, lastCoin⟩ :=
        @foldlM_operate ops mtcState shopState (by omega) (by omega) priced
      refine ⟨finishBattle last.1, ?_, ?_, ?_, ?_⟩
      · simp only [playTurns, played, opened, Except.toOption, operated, Option.bind_eq_bind,
          Option.bind_some]
        rfl
      · simp only [finishBattle, sameTurn, turn, List.length_cons]
      · simp only [finishBattle, lastGrade, grade, counted]
        omega
      · have floor : (fun coin : Nat => max (coin - 1) 0) = fun coin => coin - 1 :=
          funext fun coin => Nat.max_zero (coin - 1)
        have reached : last.1.grade = 1 + countUpgrades (ops :: earlier) := by omega
        simp only [finishBattle, floor, priceAfter, decreaseUpgradeCoin_eq, lastCoin, reached,
          upgradeCoin]

/-- The turns after which both prices are the same: there was no upgrade yet,
or the fifth grade was reached, or enough turns have passed to bring both
prices to zero. -/
def PricesAgree (turns : List (List PlayerOperation)) : Prop :=
  match countUpgrades turns with
  | 0 | 4 => True
  | 1 => 7 ≤ turnsSinceUpgrade turns
  | 2 => 8 ≤ turnsSinceUpgrade turns
  | 3 => 9 ≤ turnsSinceUpgrade turns
  | _ => False

theorem priceAfter_eq_iff {turns : List (List PlayerOperation)}
    (upper : countUpgrades turns ≤ 5) :
    priceAfter getUpgradeCoin turns = priceAfter (fun grade => getUpgradeCoin (grade + 1)) turns ↔
      PricesAgree turns := by
  rw [priceAfter_eq, priceAfter_eq, PricesAgree]
  have since : 1 ≤ turnsSinceUpgrade turns := Nat.le_add_left 1 _
  rcases (by omega : countUpgrades turns = 0 ∨ countUpgrades turns = 1 ∨
    countUpgrades turns = 2 ∨ countUpgrades turns = 3 ∨ countUpgrades turns = 4 ∨
    countUpgrades turns = 5) with same | same | same | same | same | same
  case inl => simp [same]
  all_goals simp [same, getUpgradeCoin]
  all_goals omega

/-- The contract stores the pair of the front exactly after such turns. -/
theorem storedPrice_eq_front_iff {chain : Chain AccountId} {player : AccountId}
    {turns : List (List PlayerOperation)} {contract : Contract AccountId}
    (run : MatchRun chain player turns contract) :
    ∃ mtcState, playTurns turns = some mtcState ∧
      (storedPrice contract player = some (mtcState.grade, mtcState.upgradeCoin) ↔
        PricesAgree turns) := by
  obtain ⟨_, _, _, short, upper, stored⟩ := run.stored
  obtain ⟨mtcState, played, _, grade, upgradeCoin⟩ := playTurns_eq short upper
  refine ⟨mtcState, played, ?_⟩
  rw [stored, grade, upgradeCoin, Option.some.injEq, Prod.mk.injEq, and_iff_right rfl]
  exact priceAfter_eq_iff upper

/-- A first turn without operations and a second one with an upgrade. -/
theorem exists_upgradedRun :
    ∃ (chain : Chain Nat) (contract : Contract Nat),
      MatchRun chain 0 [[.upgrade], []] contract ∧
      storedPrice contract 0 = some (2, some 4) := by
  let chain : Chain Nat := { sampler := .first, hashEncoded := fun _ _ time => time }
  let context : Context Nat :=
    { caller := 0, callerIsOrigin := true, blockNumber := 1, blockTimestamp := 5 }
  let stored : Contract Nat :=
    { admins := [0]
      emoBases := some fun id => if id < 12 then some ⟨id, .human, id % 6 + 1, 1, 1, []⟩ else none
      deckFixedEmoBaseIds := some [6, 7, 8, 9, 10, 11]
      deckBuiltEmoBaseIds := some [0, 1, 2, 3, 4, 5] }
  let messages : Fueled (Contract Nat × Contract Nat) := do
    let started ← Fueled.of (stored.startMtc chain context [0, 1, 2, 3, 4, 5])
    let first ← started.finishMtcShop chain context 9 []
    let second ← first.finishMtcShop chain context 9 [.upgrade]
    return (first, second)
  have executed : messages.value?.any fun (first, second) =>
      (first.playerMtcMutable 0).isSome && storedPrice second 0 = some (2, some 4) := by
    decide +kernel
  obtain ⟨⟨first, second⟩, executed, found⟩ := Fueled.exists_of_value? executed
  simp only [messages, Fueled.bind_eq_pure_iff, Fueled.of_eq_pure_iff, Fueled.pure_eq_pure_iff,
    Prod.mk.injEq] at executed
  obtain ⟨started, starting, middle, firstTurn, last, secondTurn, rfl, rfl⟩ := executed
  simp only [Bool.and_eq_true, decide_eq_true_eq, Option.isSome_iff_exists] at found
  obtain ⟨⟨mutable, goesOn⟩, price⟩ := found
  obtain ⟨_, goesOnAgain, _⟩ := Option.map_eq_some_iff.mp price
  exact ⟨chain, last, ((MatchRun.start rfl starting).turn rfl firstTurn goesOn).turn rfl
    secondTurn goesOnAgain, price⟩

/-- The second upgrade costs 4 coins on the chain and 6 on the front. -/
theorem upgrade_prices_differ :
    ∃ (chain : Chain Nat) (contract : Contract Nat) (mtcState : MtcState),
      MatchRun chain 0 [[.upgrade], []] contract ∧ playTurns [[.upgrade], []] = some mtcState ∧
      storedPrice contract 0 = some (2, some 4) ∧
      (mtcState.grade, mtcState.upgradeCoin) = (2, some 6) := by
  obtain ⟨chain, contract, run, price⟩ := exists_upgradedRun
  exact ⟨chain, contract, _, run, rfl, price, rfl⟩

/-- The same turns do not make the prices agree. -/
theorem storedPrice_eq_front_iff_upgraded :
    ∃ (chain : Chain Nat) (contract : Contract Nat) (mtcState : MtcState),
      MatchRun chain 0 [[.upgrade], []] contract ∧ playTurns [[.upgrade], []] = some mtcState ∧
      storedPrice contract 0 ≠ some (mtcState.grade, mtcState.upgradeCoin) := by
  obtain ⟨chain, contract, run, _⟩ := exists_upgradedRun
  obtain ⟨mtcState, played, agree⟩ := storedPrice_eq_front_iff run
  have disagree : ¬ PricesAgree [[.upgrade], []] := by
    change ¬ 7 ≤ 1
    decide
  exact ⟨chain, contract, mtcState, run, played, fun same => disagree (agree.mp same)⟩

end EmojiBattler.Front
