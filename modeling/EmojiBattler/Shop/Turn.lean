import EmojiBattler.Shop.Effects
import EmojiBattler.Shop.PlayerOperation

/-! # What an operation does to the board

An operation changes the board itself and then runs the calls it makes. -/

namespace EmojiBattler.Mtc.Shop

open EmojiBattler.Emo CallMachine

variable {env : Env}

theorem runCalls_returns {fuel : Nat} {calls : Calls env} {after : ShopState}
    (performed : runCalls env fuel calls = pure after) :
    Returns (perform env) ⟨calls.1, calls.2⟩ after :=
  run_ok_returns performed

/-! ## Moves -/

theorem mov_perm {board moved : ShopBoard} {resultIndexes : List Nat}
    (performed : mov board resultIndexes = .ok moved) : moved.Perm board := by
  simp only [mov, Result.bind_eq_ok_iff, Result.pure_eq_ok_iff] at performed
  obtain ⟨currentIndexes, _, _, _, ⟨lastIndexes, last⟩, looped, rfl⟩ := performed
  have loop : ∀ {entries : List (Nat × Nat)} {start last : List Nat × ShopBoard},
      entries.foldlM movTo start = .ok last → last.2.Perm start.2 := by
    intro entries
    induction entries with
    | nil =>
        intro start last looped
        cases looped
        exact .refl _
    | cons entry rest ih =>
        intro start last looped
        rw [List.foldlM_cons, Result.bind_eq_ok_iff] at looped
        obtain ⟨next, first, looped⟩ := looped
        simp only [movTo, Result.bind_eq_ok_iff, Result.pure_eq_ok_iff] at first
        obtain ⟨_, _, _, _, board, swapped, rfl⟩ := first
        exact (ih looped).trans (swapElements_perm swapped)
  exact loop looped

/-! ## Operations -/

/-- `sell_emo` up to its calls. -/
theorem sellEmoCalls_removal {emoIndex : Nat} {state started : ShopState}
    {calls : List (Task env.sampler)}
    (sold : sellEmoCalls env emoIndex state = .ok (calls, started)) :
    started.board = state.board.eraseIdx emoIndex ∧
      started.generatedIds = state.generatedIds ∧ pendingTriples calls = [] := by
  simp only [sellEmoCalls, Result.bind_eq_ok_iff, Result.pure_eq_ok_iff, Prod.mk.injEq] at sold
  obtain ⟨_, _, _, _, rfl, rfl⟩ := sold
  refine ⟨by simp, by simp, pendingTriples_eq_nil fun task member => ?_⟩
  obtain ⟨_, _, rfl⟩ := List.mem_map.mp member
  rfl

/-- The calls of an operation and the state they start from. -/
def operationCalls (env : Env) (catalog : Catalog) (state : TurnState) :
    PlayerOperation → Result (Calls env)
  | .buy mtcEmoId index => do
      let (_, base) ← checkBuy env catalog mtcEmoId state
      addEmoCalls env [mtcEmoId] base.id false index state.shop
  | .sell index => sellEmoCalls env index state.shop
  | .move _ | .nextCatalogLine | .upgrade => return ([], state.shop)

/-- What `buy` found out before it added the emo. -/
structure Bought (env : Env) (catalog : Catalog) (mtcEmoId : Nat) (before : TurnState)
    (base : Base) : Prop where
  unsold : mtcEmoId ∉ before.soldMtcEmoIds
  offBoard : ∀ boardEmo ∈ before.shop.board, mtcEmoId ∉ boardEmo.mtcEmoIds
  offered : ∃ catalogLine ∈ catalog, ∃ baseId,
    (⟨mtcEmoId, baseId⟩ : Mtc.Emo) ∈ catalogLine ∧ env.emoBases baseId = some base

/-- The operations and what they do to the emos. -/
inductive Operated (env : Env) (catalog : Catalog) (before after : TurnState) :
    PlayerOperation → Prop where
  | buy {mtcEmoId index : Nat} {base added : Base} {started : ShopState}
      {calls : List (Task env.sampler)}
      (called : operationCalls env catalog before (.buy mtcEmoId index) = .ok (calls, started))
      (bought : Bought env catalog mtcEmoId before base)
      (found : env.emoBases base.id = some added)
      (addition : Addition
        (.newWithBase before.shop.generatedIds [mtcEmoId] added false) before.shop.board started
        calls)
      (generatedIds : started.generatedIds = before.shop.generatedIds + 1)
      (returned : Returns (perform env) ⟨calls, started⟩ after.shop)
      (sold : after.soldMtcEmoIds = before.soldMtcEmoIds) :
      Operated env catalog before after (.buy mtcEmoId index)
  | sell {index : Nat} {soldEmo : ShopBoardEmo} {started : ShopState}
      {calls : List (Task env.sampler)}
      (called : operationCalls env catalog before (.sell index) = .ok (calls, started))
      (found : before.shop.board[index]? = some soldEmo)
      (removal : started.board = before.shop.board.eraseIdx index)
      (generatedIds : started.generatedIds = before.shop.generatedIds)
      (pending : pendingTriples calls = [])
      (returned : Returns (perform env) ⟨calls, started⟩ after.shop)
      (sold : after.soldMtcEmoIds = before.soldMtcEmoIds ++ soldEmo.mtcEmoIds) :
      Operated env catalog before after (.sell index)
  | move {indexes : List Nat} (permuted : after.shop.board.Perm before.shop.board)
      (generatedIds : after.shop.generatedIds = before.shop.generatedIds)
      (sold : after.soldMtcEmoIds = before.soldMtcEmoIds) :
      Operated env catalog before after (.move indexes)
  | nextCatalogLine (shop : after.shop = before.shop)
      (sold : after.soldMtcEmoIds = before.soldMtcEmoIds) :
      Operated env catalog before after .nextCatalogLine
  | upgrade (shop : after.shop = before.shop)
      (sold : after.soldMtcEmoIds = before.soldMtcEmoIds) :
      Operated env catalog before after .upgrade

theorem checkBuy_bought {catalog : Catalog} {mtcEmoId coin : Nat} {base : Base}
    {state : TurnState} (checked : checkBuy env catalog mtcEmoId state = .ok (coin, base)) :
    Bought env catalog mtcEmoId state base := by
  simp only [checkBuy, Result.bind_eq_ok_iff, ensure_eq_ok_iff, okOr_eq_ok_iff,
    Emo.Bases.find_eq_ok_iff, Result.pure_eq_ok_iff, Prod.mk.injEq] at checked
  obtain ⟨_, unsold, _, offBoard, _, _, catalogLine, line, mtcEmo, found, _, base, _, _, _, rfl⟩ :=
    checked
  have identified := List.find?_some found
  rw [decide_eq_true_eq] at identified
  subst identified
  exact ⟨unsold, offBoard, catalogLine, List.mem_of_getElem? line, mtcEmo.baseId,
    List.mem_of_find?_eq_some found, base⟩

theorem applyOperation_operated {fuel turn : Nat} {catalog : Catalog}
    {operation : PlayerOperation} {before after : TurnState}
    (performed : applyOperation env fuel catalog turn before operation = pure after) :
    Operated env catalog before after operation := by
  cases operation with
  | buy mtcEmoId index =>
      simp only [applyOperation, buy, addEmo, Fueled.bind_eq_pure_iff, Fueled.of_eq_pure_iff,
        Fueled.pure_eq_pure_iff] at performed
      obtain ⟨⟨coin, base⟩, checked, shop, ⟨⟨calls, started⟩, added, performed⟩, rfl⟩ := performed
      have called : operationCalls env catalog before (.buy mtcEmoId index) =
          .ok (calls, started) := by
        simp only [operationCalls, Result.bind_eq_ok_iff]
        exact ⟨(coin, base), checked, added⟩
      obtain ⟨added, found, addition, generatedIds⟩ := addEmoCalls_addition added
      exact .buy called (checkBuy_bought checked) found addition generatedIds
        (runCalls_returns performed) rfl
  | sell index =>
      simp only [applyOperation, sell, sellEmo, Fueled.bind_eq_pure_iff, Fueled.of_eq_pure_iff,
        Fueled.pure_eq_pure_iff, ShopBoard.getEmoByIndex_eq_ok_iff] at performed
      obtain ⟨soldEmo, found, shop, ⟨⟨calls, started⟩, sold, performed⟩, rfl⟩ := performed
      obtain ⟨removal, generatedIds, pending⟩ := sellEmoCalls_removal sold
      exact .sell sold found removal generatedIds pending (runCalls_returns performed) rfl
  | move indexes =>
      simp only [applyOperation, Fueled.bind_eq_pure_iff, Fueled.of_eq_pure_iff,
        Fueled.pure_eq_pure_iff] at performed
      obtain ⟨board, moved, rfl⟩ := performed
      exact .move (mov_perm moved) rfl rfl
  | nextCatalogLine =>
      simp only [applyOperation, Fueled.of_eq_pure_iff, nextCatalogLine, Result.bind_eq_ok_iff,
        Result.pure_eq_ok_iff] at performed
      obtain ⟨_, _, _, _, _, _, rfl⟩ := performed
      exact .nextCatalogLine rfl rfl
  | upgrade =>
      simp only [applyOperation, Fueled.of_eq_pure_iff, upgrade] at performed
      split at performed
      · simp only [Result.bind_eq_ok_iff, Result.pure_eq_ok_iff] at performed
        obtain ⟨_, _, _, _, rfl⟩ := performed
        exact .upgrade rfl rfl
      · cases performed

/-! ## Turns -/

/-- The shop before the pre abilities of a turn. -/
def openShop (board : Board) (generatedIds : Nat) : ShopState where
  board := .fromBoard board generatedIds
  logs := []
  gottenCoin := 0
  generatedIds := generatedIds + board.length

/-- An accepted turn runs the pre abilities and then every operation. -/
structure Opened (env : Env) (board : Board) (pool : List Emo) (seed generatedIds : Nat)
    (catalog : Catalog) (state : TurnState) : Prop where
  catalog : getCatalog env.sampler pool board seed = .ok catalog
  returned : Returns (perform env)
    ⟨(startShopCalls env seed (openShop board generatedIds)).1,
      openShop board generatedIds⟩ state.shop
  unsold : state.soldMtcEmoIds = []

theorem startTurn_opened {fuel grade seed turn generatedIds : Nat} {board : Board}
    {upgradeCoin : Option Nat} {pool : List Emo} {catalog : Catalog} {state : TurnState}
    (started : startTurn env fuel board grade upgradeCoin pool seed turn generatedIds =
      pure (catalog, state)) :
    Opened env board pool seed generatedIds catalog state := by
  simp only [startTurn, startShop, Fueled.bind_eq_pure_iff, Fueled.of_eq_pure_iff,
    Fueled.pure_eq_pure_iff, Prod.mk.injEq] at started
  obtain ⟨_, _, _, catalog, shop, performed, rfl, rfl⟩ := started
  exact ⟨catalog, runCalls_returns performed, rfl⟩

/-- What a turn is played with. -/
structure TurnInput where
  board : Board
  fuel : Nat
  grade : Nat
  upgradeCoin : Option Nat
  ops : List PlayerOperation
  pool : List Emo
  seed : Nat
  turn : Nat
  generatedIds : Nat

namespace TurnInput

def start (env : Env) (input : TurnInput) : Fueled (Catalog × TurnState) :=
  startTurn env input.fuel input.board input.grade input.upgradeCoin input.pool input.seed
    input.turn input.generatedIds

def play (env : Env) (input : TurnInput) : Fueled TurnState :=
  playTurn env input.fuel input.board input.grade input.upgradeCoin input.ops input.pool
    input.seed input.turn input.generatedIds

/-- The turn comes to the operation in state `before`. -/
def ComesTo (env : Env) (input : TurnInput) (catalog : Catalog) (operation : PlayerOperation)
    (before : TurnState) : Prop :=
  ∃ opened done rest, input.start env = pure (catalog, opened) ∧
    input.ops = done ++ operation :: rest ∧
    done.foldlM (applyOperation env input.fuel catalog input.turn) opened = pure before

/-- The turn performs the task in this state of the shop. -/
inductive Performs (env : Env) (input : TurnInput) (task : Task env.sampler) (state : ShopState) :
    Prop where
  | opening (performed : PerformedIn (perform env)
      ⟨(startShopCalls env input.seed (openShop input.board input.generatedIds)).1,
        openShop input.board input.generatedIds⟩ task state)
  | operation {catalog : Catalog} {operation : PlayerOperation} {before : TurnState}
      {calls : List (Task env.sampler)} {started : ShopState}
      (comes : input.ComesTo env catalog operation before)
      (called : operationCalls env catalog before operation = .ok (calls, started))
      (performed : PerformedIn (perform env) ⟨calls, started⟩ task state)

/-- What holds after the pre abilities and survives every operation holds at
the end of an accepted turn. -/
theorem play_invariant {P : Catalog → List PlayerOperation → TurnState → Prop}
    {input : TurnInput} {last : TurnState}
    (initial : ∀ {catalog state}, input.start env = pure (catalog, state) → P catalog [] state)
    (step : ∀ {catalog done operation before after}, input.ComesTo env catalog operation before →
      P catalog done before →
      applyOperation env input.fuel catalog input.turn before operation = pure after →
      P catalog (done ++ [operation]) after)
    (played : input.play env = pure last) :
    ∃ catalog, getCatalog env.sampler input.pool input.board input.seed = .ok catalog ∧
      P catalog input.ops last := by
  simp only [play, playTurn, Fueled.bind_eq_pure_iff, Fueled.of_eq_pure_iff] at played
  obtain ⟨_, _, ⟨catalog, state⟩, started, looped⟩ := played
  exact ⟨catalog, (startTurn_opened started).catalog,
    Fueled.foldlM_invariant
      (fun {done _ rest _ _} whole reached holds performed =>
        step ⟨state, done, rest, started, whole, reached⟩ holds performed)
      (initial started) looped⟩

end TurnInput

end EmojiBattler.Mtc.Shop
