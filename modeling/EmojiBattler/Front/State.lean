import EmojiBattler.Shop.Coin
import EmojiBattler.Codec.Types

/-! # The state of the front -/

namespace EmojiBattler.Front

open EmojiBattler.Mtc

/-- The fields of `MtcState` that the shop reads or writes. -/
structure MtcState where
  turn : Nat
  board : Board
  grade : Nat
  upgradeCoin : Option Nat
deriving DecidableEq

/-- The fields of `State` that an operation writes. -/
structure State where
  soldMtcEmoIds : List Nat := []
  playerOperations : List Mtc.Shop.PlayerOperation := []
  /-- A number, which nothing keeps from being negative. -/
  coin : Int
deriving DecidableEq

def buildInitialMtcState (upgradeCoin : Option Nat) : MtcState where
  turn := 1
  board := []
  grade := 1
  upgradeCoin := upgradeCoin

/-- The state of the shop when it opens. -/
def buildInitialState (turn : Nat) : Result State := do
  let coin ← Mtc.Shop.getInitialCoinByTurn turn
  return { coin := (coin : Int) }

end EmojiBattler.Front
