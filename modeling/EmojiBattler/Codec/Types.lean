import Mathlib.Algebra.Ring.Nat
import Mathlib.Data.List.Basic

/-! # The codec types

Machine integers are natural numbers.  The operations that depend on a width
are in `EmojiBattler.Codec.Arithmetic`. -/

namespace EmojiBattler

namespace Emo

inductive Typ where
  | human
  | nature
  | food
  | object
deriving DecidableEq, Repr

namespace Ability

structure TypOptAndIsTripleOpt where
  typOpt : Option Typ := none
  isTripleOpt : Option Bool := none
deriving DecidableEq, Repr

inductive Side where
  | ally
  | rival
deriving DecidableEq, Repr

inductive Destination where
  | left
  | right
  | all
deriving DecidableEq, Repr

inductive Target where
  | oneself
  | others (destination : Destination) (typAndTriple : TypOptAndIsTripleOpt)
deriving DecidableEq, Repr

inductive TargetOrRandom where
  | target (target : Target)
  | random (typAndTriple : TypOptAndIsTripleOpt) (count : Nat)
deriving DecidableEq, Repr

inductive Battle.Special where
  | shield
  | attractive
  | attackLowestAttack
deriving DecidableEq, Repr

inductive Battle.AsAllyAction where
  | triggerRetireActions
deriving DecidableEq, Repr

inductive Battle.GeneralAsAllyTrigger where
  | allySet (typAndTriple : TypOptAndIsTripleOpt)
  | allyRetire (typAndTriple : TypOptAndIsTripleOpt)
deriving DecidableEq, Repr

mutual

inductive Battle where
  | general (general : Battle.General)
  | special (special : Battle.Special)

inductive Battle.General where
  | asOneself (trigger : Battle.GeneralAsOneselfTrigger) (action : Battle.NormalAction)
  | asAlly (trigger : Battle.GeneralAsAllyTrigger) (action : Battle.GeneralAsAllyAction)

inductive Battle.GeneralAsOneselfTrigger where
  | pre
  | retire
  | allyRetire (typAndTriple : TypOptAndIsTripleOpt)
  | rivalRetire (typAndTriple : TypOptAndIsTripleOpt)
  | allyBattleAbilityRemoved (typAndTriple : TypOptAndIsTripleOpt) (excludesSameBase : Bool)
      (ability : Battle)

inductive Battle.GeneralAsAllyAction where
  | oneselfTripleNormal (action : Battle.NormalAction)
  | custom (action : Battle.AsAllyAction)

inductive Battle.NormalAction where
  | setEmo (side : Side) (baseId : Nat)
  | setEmosByAttackDiv (side : Side) (baseId divisor : Nat)
  | increaseStats (targetOrRandom : TargetOrRandom) (attack health : Nat)
  | decreaseStats (targetOrRandom : TargetOrRandom) (attack health : Nat)
  | increaseStatsByEmoCount (side : Side) (targetOrRandom : TargetOrRandom)
      (countCondition : TypOptAndIsTripleOpt) (attack health : Nat)
  | addBattleAbility (targetOrRandom : TargetOrRandom) (ability : Battle)
  | damageAll (side : Side) (damage : Nat)

end

deriving instance DecidableEq for Battle, Battle.General, Battle.GeneralAsOneselfTrigger,
  Battle.GeneralAsAllyAction, Battle.NormalAction

inductive Shop.Special where
  | placeholder
deriving DecidableEq, Repr

inductive Shop.AsAllyAction where
  | triggerSetActions
deriving DecidableEq, Repr

inductive Shop.RandomAction where
  | increaseStatsOfMenagerie (typCount attack health : Nat)
deriving DecidableEq, Repr

inductive Shop.PeriAsOneselfTrigger where
  | set
  | sell
  | allySet (typAndTriple : TypOptAndIsTripleOpt)
deriving DecidableEq, Repr

inductive Shop.PeriAsAllyTrigger where
  | allySet (typAndTriple : TypOptAndIsTripleOpt)
deriving DecidableEq, Repr

end Ability

mutual

inductive Ability where
  | shop (shop : Ability.Shop)
  | battle (battle : Ability.Battle)

inductive Ability.Shop where
  | pre (pre : Ability.Shop.Pre)
  | peri (peri : Ability.Shop.Peri)
  | special (special : Ability.Shop.Special)

inductive Ability.Shop.Pre where
  | normal (action : Ability.Shop.NormalAction)
  | random (action : Ability.Shop.RandomAction)

inductive Ability.Shop.Peri where
  | asOneself (trigger : Ability.Shop.PeriAsOneselfTrigger) (action : Ability.Shop.NormalAction)
  | asAlly (trigger : Ability.Shop.PeriAsAllyTrigger) (action : Ability.Shop.PeriAsAllyAction)

inductive Ability.Shop.PeriAsAllyAction where
  | oneselfTripleNormal (action : Ability.Shop.NormalAction)
  | custom (action : Ability.Shop.AsAllyAction)

inductive Ability.Shop.NormalAction where
  | setEmo (baseId : Nat)
  | increaseStats (target : Ability.Target) (attack health : Nat)
  | increaseStatsByEmoCount (target : Ability.Target)
      (countCondition : Ability.TypOptAndIsTripleOpt) (attack health : Nat)
  | increaseStatsByGrade (target : Ability.Target) (attack health : Nat)
  | increaseStatsOfAdjacentMenagerie (attack health : Nat)
  | addAbility (target : Ability.Target) (ability : Ability)
  | getCoin (coin : Nat)
  | getCoinByEmoCountDiv (countCondition : Ability.TypOptAndIsTripleOpt) (divisor : Nat)

end

deriving instance DecidableEq for Ability, Ability.Shop, Ability.Shop.Pre, Ability.Shop.Peri,
  Ability.Shop.PeriAsAllyAction, Ability.Shop.NormalAction

structure Attributes where
  attack : Nat
  health : Nat
  abilities : List Ability
  isTriple : Bool
deriving DecidableEq

structure Base where
  id : Nat
  typ : Typ
  grade : Nat
  attack : Nat
  health : Nat
  abilities : List Ability
deriving DecidableEq

/-- The map from ids to bases.  Only its lookups, its keys and its insertions
are observable. -/
def Bases := Nat → Option Base

end Emo

namespace Mtc

/-- An emo of a player's pool. -/
structure Emo where
  id : Nat
  baseId : Nat
deriving DecidableEq, Repr

structure BoardEmo where
  mtcEmoIds : List Nat
  baseId : Nat
  attributes : Emo.Attributes
deriving DecidableEq

abbrev Board := List BoardEmo

structure GradeAndBoard where
  grade : Nat
  board : Board
deriving DecidableEq

structure GhostBoardEmo where
  baseId : Nat
  attributes : Emo.Attributes
deriving DecidableEq

abbrev GhostBoard := List GhostBoardEmo

structure GradeAndGhostBoard where
  grade : Nat
  board : GhostBoard
deriving DecidableEq

structure Ghost where
  history : List GradeAndGhostBoard := []
deriving DecidableEq

inductive GhostState where
  | active (health : Nat)
  | retired (finalTurn : Nat)
deriving DecidableEq, Repr

namespace Shop

abbrev CatalogLine := List Mtc.Emo

abbrev Catalog := List CatalogLine

inductive PlayerOperation where
  | buy (mtcEmoId index : Nat)
  | sell (index : Nat)
  | move (indexes : List Nat)
  | nextCatalogLine
  | upgrade
deriving DecidableEq, Repr

inductive BoardLog where
  | add (index : Nat) (boardEmo : BoardEmo)
  | remove (index : Nat)
  | move (fromIndex toIndex : Nat)
  | increaseStats (index attack health calculatedAttack calculatedHealth : Nat)
  | addAbility (index : Nat) (ability : Emo.Ability) (isTargetTriple : Bool)
  | triple (removedIndexes : List Nat)
deriving DecidableEq

end Shop

/-- The two sides of a battle.  The source counts them 0 and 1. -/
inductive PlayerIndex where
  | zero
  | one
deriving DecidableEq, Repr

namespace Battle

inductive Log where
  | attack (attackPlayerIndex : PlayerIndex) (attackEmoIndex defenseEmoIndex : Nat)
  | damage (playerIndex : PlayerIndex) (emoIndex damage health : Nat)
  | remove (playerIndex : PlayerIndex) (emoIndex : Nat)
  | add (playerIndex : PlayerIndex) (emoIndex baseId : Nat) (attributes : Emo.Attributes)
  | increaseStats (playerIndex : PlayerIndex)
      (emoIndex attack health calculatedAttack calculatedHealth : Nat)
  | decreaseStats (playerIndex : PlayerIndex)
      (emoIndex attack health calculatedAttack calculatedHealth : Nat)
  | addBattleAbility (playerIndex : PlayerIndex) (emoIndex : Nat)
      (ability : Emo.Ability.Battle) (isEmoTriple : Bool)
  | removeBattleAbility (playerIndex : PlayerIndex) (emoIndex abilityIndex : Nat)
      (ability : Emo.Ability.Battle)
deriving DecidableEq

end Battle

namespace Storage

structure PlayerMutable where
  health : Nat
  gradeAndBoardHistory : List GradeAndBoard
  upgradeCoin : Option Nat
  ghostStates : List GhostState
  battleGhostIndex : Nat
deriving DecidableEq

end Storage

end Mtc

end EmojiBattler
