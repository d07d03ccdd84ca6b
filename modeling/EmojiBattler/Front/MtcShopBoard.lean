import EmojiBattler.Front.State
import EmojiBattler.Shop.Turn

/-! # The shop board of the front

The front keeps the board encoded.  Every operation decodes it, runs one
action on a board that is built anew, and records what the chain is to
replay. -/

namespace EmojiBattler.Front

open EmojiBattler.Mtc EmojiBattler.Emo
open EmojiBattler.Mtc.Shop (ShopState PlayerOperation BoardLog openShop)

def emoBuyCoin : Nat := 3

/-- The kinds that `operate` implements. -/
inductive Operation where
  | preShop
  | move (index : Nat) (isRight : Bool)
  | sell (index : Nat)
  | set (index : Nat) (mtcEmo : Mtc.Emo)
deriving DecidableEq, Repr

/-! ## The entry points -/

/-- What an entry point of the wasm module returns.  The generator of the ids
is a static of the module and goes on from call to call. -/
structure ShopResult where
  board : Board
  logs : List BoardLog
  coin : Nat
  generatedIds : Nat

def decodeAndEncodeForShop (f : ShopState → Fueled ShopState) (board : Board)
    (generatedIds : Nat) : Fueled ShopResult := do
  let shop ← f (openShop board generatedIds)
  return {
    board := shop.board.intoBoard
    logs := shop.logs
    coin := shop.gottenCoin
    generatedIds := shop.generatedIds }

variable (env : Env) (fuel : Nat)

def startShop (board : Board) (seed generatedIds : Nat) : Fueled ShopResult :=
  decodeAndEncodeForShop (Mtc.Shop.startShop env fuel seed) board generatedIds

def addEmo (board : Board) (mtcEmoIds : List Nat) (baseId : Nat) (isTriple : Bool)
    (emoIndex generatedIds : Nat) : Fueled ShopResult :=
  decodeAndEncodeForShop (Mtc.Shop.addEmo env fuel mtcEmoIds baseId isTriple emoIndex) board
    generatedIds

def sellEmo (board : Board) (emoIndex generatedIds : Nat) : Fueled ShopResult :=
  decodeAndEncodeForShop (Mtc.Shop.sellEmo env fuel emoIndex) board generatedIds

def moveEmo (board : Board) (emoIndex : Nat) (isRight : Bool) (generatedIds : Nat) :
    Fueled ShopResult :=
  decodeAndEncodeForShop (fun shop => Fueled.of (Mtc.Shop.moveEmo env emoIndex isRight shop))
    board generatedIds

/-- `operate`: the new board, the coins that it brings, which may be negative,
and the generator.  The animation of the logs is left out. -/
def MtcShopBoard.operate (preShopSeed : Nat) (board : Board) (generatedIds : Nat) :
    Operation → Fueled (Board × Int × Nat)
  | .preShop => do
      let result ← startShop env fuel board preShopSeed generatedIds
      return (result.board, result.coin, result.generatedIds)
  | .set index mtcEmo => do
      let result ← addEmo env fuel board [mtcEmo.id] mtcEmo.baseId false index generatedIds
      return (result.board, -emoBuyCoin + result.coin, result.generatedIds)
  | .sell index => do
      let result ← sellEmo env fuel board index generatedIds
      return (result.board, result.coin, result.generatedIds)
  | .move index isRight => do
      let result ← moveEmo env board index isRight generatedIds
      return (result.board, result.coin, result.generatedIds)

/-! ## What is recorded -/

/-- `moveArrayElement`: `splice` inserts at the end at the latest.  `none` if
there is no such element. -/
def moveArrayElement (array : List α) (fromIndex toIndex : Nat) : Option (List α) := do
  let removed ← array[fromIndex]?
  let rest := array.eraseIdx fromIndex
  return rest.insertIdx (min toIndex rest.length) removed

/-- The index that a move leads to. -/
def getToIdx (board : Board) (idx : Nat) (isRight : Bool) : Option Nat := do
  let _ ← board[idx]?
  if isRight then
    let _ ← board[idx + 1]?
    return idx + 1
  else checkedSub idx 1

/-- The operations after a move.  Moves in a row are recorded as one. -/
def recordMove (boardLength : Nat) (playerOperations : List PlayerOperation) (idx toIdx : Nat) :
    Option (List PlayerOperation) :=
  match playerOperations.getLast? with
  | some (.move lastIndexes) => do
      let indexes ← moveArrayElement lastIndexes idx toIdx
      return playerOperations.dropLast ++ [.move indexes]
  | _ => do
      let indexes ← moveArrayElement (List.range boardLength) idx toIdx
      return playerOperations ++ [.move indexes]

/-- What `finishShopBoardOperation` records of an operation.  `none` where it
throws. -/
def recordOperation (mtcState : MtcState) (shopState : State) : Operation → Option State
  | .preShop => some shopState
  | .set index mtcEmo =>
      some { shopState with
        playerOperations := shopState.playerOperations ++ [.buy mtcEmo.id index] }
  | .sell index => do
      let boardEmo ← mtcState.board[index]?
      return { shopState with
        soldMtcEmoIds := shopState.soldMtcEmoIds ++ boardEmo.mtcEmoIds
        playerOperations := shopState.playerOperations ++ [.sell index] }
  | .move idx isRight => do
      let toIdx ← getToIdx mtcState.board idx isRight
      let playerOperations ←
        recordMove mtcState.board.length shopState.playerOperations idx toIdx
      return { shopState with playerOperations }

def finishShopBoardOperation (boardOperation : Operation) (board : Board) (coinDiff : Int)
    (mtcState : MtcState) (shopState : State) : Option (MtcState × State) := do
  let newShopState ← recordOperation mtcState
    { shopState with coin := shopState.coin + coinDiff } boardOperation
  return ({ mtcState with board }, newShopState)

/-! ## Sessions -/

/-- The states of the front and the generator of the wasm module. -/
structure Session where
  mtcState : MtcState
  shopState : State
  generatedIds : Nat
deriving DecidableEq

/-- An operation from its start to its end.  `none` if something throws. -/
def playOperation (preShopSeed : Nat) (session : Session) (operation : Operation) :
    Option Session := do
  let (board, coinDiff, generatedIds) ← (MtcShopBoard.operate env fuel preShopSeed
    session.mtcState.board session.generatedIds operation).value?
  let (mtcState, shopState) ← finishShopBoardOperation operation board coinDiff
    session.mtcState session.shopState
  return { mtcState, shopState, generatedIds }

end EmojiBattler.Front
