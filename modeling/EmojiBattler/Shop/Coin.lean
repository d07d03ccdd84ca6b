import EmojiBattler.Codec.Arithmetic

/-! # Coins -/

namespace EmojiBattler.Mtc.Shop

def maxCoin : Nat := 8

def getInitialCoinByTurn (turn : Nat) : Result Nat := do
  let coin ← addU8 turn 2
  return if maxCoin < coin then maxCoin else coin

def decreaseUpgradeCoin : Option Nat → Option Nat
  | some c => if 0 < c then some (c - 1) else some 0
  | none => none

def getUpgradeCoin : Nat → Option Nat
  | 2 => some 5
  | 3 => some 7
  | 4 => some 8
  | 5 => some 9
  | 6 => some 9
  | _ => none

end EmojiBattler.Mtc.Shop
