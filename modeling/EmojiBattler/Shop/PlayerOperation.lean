import EmojiBattler.Shop.Board
import EmojiBattler.Shop.Catalog
import EmojiBattler.Shop.Coin

/-! # The operations of a turn -/

namespace EmojiBattler.Mtc.Shop

open EmojiBattler.Emo

def nextCatalogLineCoin : Nat := 1

def emoBuyCoin : Nat := 3

def lastGrade : Nat := 6

def mulliganCount : Nat := 2

/-- The variables of `verify_player_operations_and_update`. -/
structure TurnState where
  shop : ShopState
  grade : Nat
  upgradeCoin : Option Nat
  coin : Nat
  catalogLineIndex : Nat
  nextCatalogLineCounter : Nat
  soldMtcEmoIds : List Nat

variable (env : Env)

/-- The checks of `buy`: the coins that are left and the emo to add. -/
def checkBuy (catalog : Catalog) (boughtMtcEmoId : Nat) (state : TurnState) :
    Result (Nat × Base) := do
  ensure (boughtMtcEmoId ∉ state.soldMtcEmoIds) .soldEmo
  ensure (∀ boardEmo ∈ state.shop.board, boughtMtcEmoId ∉ boardEmo.mtcEmoIds) .alreadyOnBoard
  let coin ← okOr (checkedSub state.coin emoBuyCoin) .notEnoughCoinToBuy
  let currentCatalogLine ← okOr catalog[state.catalogLineIndex]? .nonCatalogLine
  let mtcEmo ← okOr (currentCatalogLine.find? fun emo => emo.id = boughtMtcEmoId)
    .targetEmoToBuyNotFound
  let base ← env.emoBases.find mtcEmo.baseId
  ensure (base.grade ≤ state.grade) .higherGrade
  return (coin, base)

def buy (fuel : Nat) (catalog : Catalog) (boughtMtcEmoId boughtEmoIndex : Nat)
    (state : TurnState) : Fueled TurnState := do
  let (coin, base) ← Fueled.of (checkBuy env catalog boughtMtcEmoId state)
  let shop ← addEmo env fuel [boughtMtcEmoId] base.id false boughtEmoIndex state.shop
  return { state with shop, coin := saturatingAddU8 coin shop.gottenCoin }

def sell (fuel soldEmoIndex : Nat) (state : TurnState) : Fueled TurnState := do
  let soldEmo ← Fueled.of (state.shop.board.getEmoByIndex soldEmoIndex)
  let shop ← sellEmo env fuel soldEmoIndex state.shop
  return { state with
    shop
    coin := saturatingAddU8 state.coin shop.gottenCoin
    soldMtcEmoIds := state.soldMtcEmoIds ++ soldEmo.mtcEmoIds }

/-- One iteration of the loop of `mov`. -/
def movTo (indexesAndBoard : List Nat × ShopBoard) (resultIndexAndIdx : Nat × Nat) :
    Result (List Nat × ShopBoard) := do
  let (currentIndexes, board) := indexesAndBoard
  let (resultIndex, idx) := resultIndexAndIdx
  let actualIndex ← okOr (currentIndexes.findIdx? (· = resultIndex)) .invalidIndex
  let currentIndexes ← swapElements currentIndexes idx actualIndex
  let board ← board.swapEmos idx actualIndex
  return (currentIndexes, board)

def mov (board : ShopBoard) (resultIndexes : List Nat) : Result ShopBoard := do
  let currentIndexes ← board.emoIndexes
  ensure (currentIndexes.length = resultIndexes.length) .invalidIndexesLen
  let moved ← resultIndexes.zipIdx.foldlM movTo (currentIndexes, board)
  return moved.2

/-- The coins left after `next_catalog_line`. -/
def payNextCatalogLine (turn nextCatalogLineCounter coin : Nat) : Result Nat :=
  if 1 < turn ∨ mulliganCount ≤ nextCatalogLineCounter then
    okOr (checkedSub coin nextCatalogLineCoin) .notEnoughCoinForNextCatalogLine
  else return coin

def nextCatalogLine (turn : Nat) (state : TurnState) : Result TurnState := do
  let coin ← payNextCatalogLine turn state.nextCatalogLineCounter state.coin
  ensure (state.nextCatalogLineCounter + 1 ≤ u8Max) .invalidCounter
  ensure (state.catalogLineIndex + 1 ≤ u8Max) .invalidIndex
  return { state with
    coin
    nextCatalogLineCounter := state.nextCatalogLineCounter + 1
    catalogLineIndex := state.catalogLineIndex + 1 }

def upgrade (state : TurnState) : Result TurnState :=
  match state.upgradeCoin with
  | some c => do
      let coin ← okOr (checkedSub state.coin c) .notEnoughCoinForUpgrade
      ensure (state.grade < lastGrade) .alreadyLastGrade
      let grade := state.grade + 1
      return { state with coin, grade, upgradeCoin := getUpgradeCoin grade }
  | none => .error .noUpgrade

/-- The body of the loop over the operations. -/
def applyOperation (fuel : Nat) (catalog : Catalog) (turn : Nat) (state : TurnState) :
    PlayerOperation → Fueled TurnState
  | .buy mtcEmoId index => buy env fuel catalog mtcEmoId index state
  | .sell index => sell env fuel index state
  | .move indexes => do
      let board ← Fueled.of (mov state.shop.board indexes)
      return { state with shop := { state.shop with board } }
  | .nextCatalogLine => Fueled.of (nextCatalogLine turn state)
  | .upgrade => Fueled.of (upgrade state)

/-- `verify_player_operations_and_update` up to its loop. -/
def startTurn (fuel : Nat) (board : Board) (grade : Nat) (upgradeCoin : Option Nat)
    (pool : List Emo) (seed turn generatedIds : Nat) : Fueled (Catalog × TurnState) := do
  let coin ← Fueled.of (getInitialCoinByTurn turn)
  let catalog ← Fueled.of (getCatalog env.sampler pool board seed)
  let shop ← startShop env fuel seed
    { board := .fromBoard board generatedIds
      logs := []
      gottenCoin := 0
      generatedIds := generatedIds + board.length }
  return (catalog,
    { shop
      grade
      upgradeCoin
      coin := saturatingAddU8 coin shop.gottenCoin
      catalogLineIndex := 0
      nextCatalogLineCounter := 0
      soldMtcEmoIds := [] })

/-- `verify_player_operations_and_update`, with the variables as they are at
its end. -/
def playTurn (fuel : Nat) (board : Board) (grade : Nat) (upgradeCoin : Option Nat)
    (ops : List PlayerOperation) (pool : List Emo) (seed turn generatedIds : Nat) :
    Fueled TurnState := do
  let _ ← Fueled.of (ensure (ops.length < 200) .tooBigOps)
  let (catalog, state) ← startTurn env fuel board grade upgradeCoin pool seed turn generatedIds
  ops.foldlM (applyOperation env fuel catalog turn) state

/-- Returns the board, the grade and the upgrade coin. -/
def verifyPlayerOperationsAndUpdate (fuel : Nat) (board : Board) (grade : Nat)
    (upgradeCoin : Option Nat) (ops : List PlayerOperation) (pool : List Emo)
    (seed turn generatedIds : Nat) : Fueled (Board × Nat × Option Nat) := do
  let state ← playTurn env fuel board grade upgradeCoin ops pool seed turn generatedIds
  return (state.shop.board.intoBoard, state.grade, state.upgradeCoin)

end EmojiBattler.Mtc.Shop
