import EmojiBattler.Shop.Conservation
import EmojiBattler.Shop.Raises

/-! # The abilities in play on a shop board

Which bases a shop action can set, which emos their triples can take away and
how much their stats can rise, read off the board and the bases alone. -/

namespace EmojiBattler.Mtc.Shop

open EmojiBattler.Emo Sampling CallMachine
open EmojiBattler.Emo.Ability (Target TypOptAndIsTripleOpt)
open EmojiBattler.Emo.Ability.Shop (NormalAction Peri PeriAsAllyAction Pre)

/-! ## In play -/

/-- The ability answers the arrival of an emo of this base. -/
inductive Answers (base : Base) : Ability → Prop
  | asOneself {typAndTriple : TypOptAndIsTripleOpt} {isTriple : Bool} {action : NormalAction}
      (isMatched : isMatchedTypAndTriple typAndTriple base.typ isTriple = true) :
      Answers base (.shop (.peri (.asOneself (.allySet typAndTriple) action)))
  | asAlly {typAndTriple : TypOptAndIsTripleOpt} {isTriple : Bool} {action : PeriAsAllyAction}
      (isMatched : isMatchedTypAndTriple typAndTriple base.typ isTriple = true) :
      Answers base (.shop (.peri (.asAlly (.allySet typAndTriple) action)))

/-- The action that the ability of an emo of base `owner` brings about when an
emo of the other base arrives.  `TriggerSetActions` brings about no action that
is not also a `Set` action of the new emo. -/
inductive Responds (base : Base) (owner : Nat) : Ability → NormalAction → Prop
  | set {action : NormalAction} (own : owner = base.id) :
      Responds base owner (.shop (.peri (.asOneself .set action))) action
  | asOneself {typAndTriple : TypOptAndIsTripleOpt} {isTriple : Bool} {action : NormalAction}
      (isMatched : isMatchedTypAndTriple typAndTriple base.typ isTriple = true) :
      Responds base owner (.shop (.peri (.asOneself (.allySet typAndTriple) action))) action
  | asAlly {typAndTriple : TypOptAndIsTripleOpt} {isTriple : Bool} {action : NormalAction}
      (isMatched : isMatchedTypAndTriple typAndTriple base.typ isTriple = true) :
      Responds base owner
        (.shop (.peri (.asAlly (.allySet typAndTriple) (.oneselfTripleNormal action)))) action

inductive Happening where
  /-- An emo acts. -/
  | acts (action : NormalAction)
  /-- An emo of the base has the ability. -/
  | owns (baseId : Nat) (isTriple : Bool) (ability : Ability)

variable (bases : Bases) (board : ShopBoard) (roots : NormalAction → Prop)

/-- What can happen after actions of the kind `roots` on this board. -/
inductive InPlay : Happening → Prop
  | root {action : NormalAction} (starts : roots action) : InPlay (.acts action)
  | listed {emo : ShopBoardEmo} {ability : Ability} (member : emo ∈ board)
      (listed : ability ∈ emo.attributes.abilities) :
      InPlay (.owns emo.baseId emo.attributes.isTriple ability)
  | born {baseId : Nat} {base : Base} {isTriple : Bool} {ability : Ability}
      (sets : InPlay (.acts (.setEmo baseId))) (found : bases baseId = some base)
      (listed : ability ∈ base.abilities) : InPlay (.owns baseId isTriple ability)
  | merged {baseId : Nat} {ability : Ability} (sets : InPlay (.acts (.setEmo baseId)))
      (owns : InPlay (.owns baseId false ability)) : InPlay (.owns baseId true ability)
  | given {target : Target} {ability : Ability} {baseId : Nat} {isTriple : Bool}
      (adds : InPlay (.acts (.addAbility target ability))) :
      InPlay (.owns baseId isTriple ability)
  | response {baseId owner : Nat} {base : Base} {isTriple : Bool} {ability : Ability}
      {action : NormalAction} (sets : InPlay (.acts (.setEmo baseId)))
      (found : bases baseId = some base) (owns : InPlay (.owns owner isTriple ability))
      (responds : Responds base owner ability action) : InPlay (.acts action)

/-- An emo of base `baseId` that arrives can bring about one of base `next`. -/
def Sets (baseId next : Nat) : Prop :=
  ∃ base owner isTriple ability, bases baseId = some base ∧
    InPlay bases board roots (.owns owner isTriple ability) ∧
    Responds base owner ability (.setEmo next)

/-- Emos of this base may be merged because of the action. -/
def ActionMerges (action : NormalAction) (baseId : Nat) : Prop :=
  ∃ first, action = .setEmo first ∧ Relation.ReflTransGen (Sets bases board roots) first baseId

/-- Emos of base `merged` may be merged because of the `Set` actions of a new emo. -/
def SetMerges (baseId merged : Nat) : Prop :=
  ∃ isTriple action,
    InPlay bases board roots (.owns baseId isTriple (.shop (.peri (.asOneself .set action)))) ∧
      ActionMerges bases board roots action merged

/-- Emos of base `merged` may be merged while the abilities on the board answer
the arrival of an emo of the other base. -/
inductive AnswerMerges (base : Base) (merged : Nat) : Prop
  | asOneself {owner : Nat} {isOwnerTriple isTriple : Bool} {typAndTriple : TypOptAndIsTripleOpt}
      {action : NormalAction}
      (isMatched : isMatchedTypAndTriple typAndTriple base.typ isTriple = true)
      (owns : InPlay bases board roots
        (.owns owner isOwnerTriple (.shop (.peri (.asOneself (.allySet typAndTriple) action)))))
      (merges : ActionMerges bases board roots action merged)
  | asAlly {owner : Nat} {isOwnerTriple isTriple : Bool} {typAndTriple : TypOptAndIsTripleOpt}
      {action : NormalAction}
      (isMatched : isMatchedTypAndTriple typAndTriple base.typ isTriple = true)
      (owns : InPlay bases board roots (.owns owner isOwnerTriple
        (.shop (.peri (.asAlly (.allySet typAndTriple) (.oneselfTripleNormal action))))))
      (merges : ActionMerges bases board roots action merged)
  | triggerSetActions {owner : Nat} {isOwnerTriple isTriple : Bool}
      {typAndTriple : TypOptAndIsTripleOpt}
      (isMatched : isMatchedTypAndTriple typAndTriple base.typ isTriple = true)
      (owns : InPlay bases board roots (.owns owner isOwnerTriple
        (.shop (.peri (.asAlly (.allySet typAndTriple) (.custom .triggerSetActions))))))
      (merges : SetMerges bases board roots base.id merged)

/-- No arrival takes away an emo that is still spoken of because of it. -/
structure Steady : Prop where
  /-- The new emo itself. -/
  newEmo : ∀ baseId, InPlay bases board roots (.acts (.setEmo baseId)) →
    ¬ Relation.TransGen (Sets bases board roots) baseId baseId
  /-- The emos that answer its arrival. -/
  answers : ∀ baseId base merged ability, InPlay bases board roots (.acts (.setEmo baseId)) →
    bases baseId = some base → AnswerMerges bases board roots base merged →
    InPlay bases board roots (.owns merged false ability) → ¬ Answers base ability

/-! ## Identities -/

/-- What an emo keeps as long as it is on the board. -/
structure Identity where
  id : Nat
  baseId : Nat
  isTriple : Bool

def ShopBoardEmo.identity (emo : ShopBoardEmo) : Identity where
  id := emo.id
  baseId := emo.baseId
  isTriple := emo.attributes.isTriple

def ShopBoard.identities (board : ShopBoard) : List Identity := board.map ShopBoardEmo.identity

/-- Those that stay whichever emos of these bases are merged. -/
noncomputable def spared (merges : Nat → Prop) (line : List Identity) : List Identity :=
  open Classical in
  line.filter fun identity => identity.isTriple || !decide (merges identity.baseId)

/-- The action uses the place of the acting emo even where that emo is gone. -/
def UsesPlace : NormalAction → Prop
  | .setEmo _ | .increaseStatsOfAdjacentMenagerie _ _ => True
  | .increaseStats target _ _ | .increaseStatsByGrade target _ _
  | .increaseStatsByEmoCount target _ _ _ | .addAbility target _ =>
      ∃ typAndTriple, target = .others .left typAndTriple
  | .getCoin _ | .getCoinByEmoCountDiv _ _ => False

/-- Each emo stays until its pre ability is called. -/
def PreKept (line : List Identity) : List (Nat × Pre) → Prop
  | [] => True
  | (emoId, .normal action) :: rest =>
      emoId ∈ line.map Identity.id ∧
        PreKept (spared (ActionMerges bases board roots action) line) rest
  | (emoId, .random _) :: rest => emoId ∈ line.map Identity.id ∧ PreKept line rest

/-- The board stays long enough for the place of the emo that was sold. -/
def PlaceKept (emoIndex : Nat) (line : List Identity) : List NormalAction → Prop
  | [] => True
  | action :: rest =>
      (UsesPlace action → emoIndex ≤ line.length) ∧
        PlaceKept emoIndex (spared (ActionMerges bases board roots action) line) rest

/-! ## Accounts -/

/-- Bounds for what the arrival of an emo of a base raises the stats of one emo by. -/
structure Account where
  /-- With the triple that it may complete. -/
  price : Nat → Nat
  /-- By the `Set` actions of the new emo. -/
  own : Nat → Nat
  /-- By the answers of one emo on the board. -/
  answer : Nat → Nat
  /-- The highest grade of a base. -/
  grade : Nat

namespace Account

variable (account : Account)

def cost : NormalAction → Nat
  | .setEmo baseId => account.price baseId
  | action => raise account.grade action

def preCost : Pre → Nat
  | .normal action => account.cost action
  | .random (.increaseStatsOfMenagerie _ attack health) => 2 * max attack health

/-- Of an ability whose emo is set. -/
def ownCost (ability : Ability) : Nat :=
  match (periAbility? ability).bind setAction? with
  | some action => account.cost action
  | none => 0

/-- Of an ability on the board when an emo of the base is set. -/
def answerCost (base : Base) : Ability → Nat
  | .shop (.peri (.asOneself (.allySet typAndTriple) action)) =>
      if isMatchedTyp typAndTriple.typOpt base.typ then account.cost action else 0
  | .shop (.peri (.asAlly (.allySet typAndTriple) (.oneselfTripleNormal action))) =>
      if isMatchedTyp typAndTriple.typOpt base.typ then account.cost action else 0
  | .shop (.peri (.asAlly (.allySet typAndTriple) (.custom .triggerSetActions))) =>
      if isMatchedTyp typAndTriple.typOpt base.typ then 2 * account.own base.id else 0
  | _ => 0

end Account

/-- The abilities together answer each arrival within the account. -/
def AnswersWithin (account : Account) (abilities : List Ability) : Prop :=
  ∀ baseId base, InPlay bases board roots (.acts (.setEmo baseId)) → bases baseId = some base →
    (abilities.map (account.answerCost base)).sum ≤ account.answer baseId

/-- The ability brings nothing about that raises stats or sets an emo that
does. -/
structure Costless (account : Account) (ability : Ability) : Prop where
  own : account.ownCost ability = 0
  answer : ∀ baseId base, InPlay bases board roots (.acts (.setEmo baseId)) →
    bases baseId = some base → account.answerCost base ability = 0

/-- The stats above those of the base, with what is still to come, fit a merge of
a whole board. -/
structure Low (base : Base) (expected : Nat) (emo : ShopBoardEmo) : Prop where
  attack : boardEmoMaxCount * (emo.attributes.attack - base.attack + expected) ≤ u16Max
  health : boardEmoMaxCount * (emo.attributes.health - base.health + expected) ≤ u16Max

/-- The abilities of an emo fit the account. -/
structure Accounted (account : Account) (baseId : Nat) (isTriple : Bool)
    (abilities : List Ability) : Prop where
  answers : AnswersWithin bases board roots account abilities
  own : InPlay bases board roots (.acts (.setEmo baseId)) →
    (abilities.map account.ownCost).sum ≤ account.own baseId
  /-- What a triple gets in addition to the abilities of its base. -/
  extras : InPlay bases board roots (.acts (.setEmo baseId)) → isTriple = false →
    ∀ base, bases baseId = some base → ∀ ability ∈ abilities, ability ∉ base.abilities →
      Costless bases board roots account ability

/-- The account covers all that follows from actions of the kind `roots` which
cost so much together. -/
structure Covers (account : Account) (expected : Nat) : Prop where
  grades : ∀ id base, bases id = some base → base.grade ≤ account.grade
  prices : ∀ baseId, InPlay bases board roots (.acts (.setEmo baseId)) →
    2 * (account.own baseId + boardEmoMaxCount * account.answer baseId) ≤ account.price baseId
  fits : boardEmoMaxCount * expected ≤ u16Max
  emos : ∀ emo ∈ board, Accounted bases board roots account emo.baseId emo.attributes.isTriple
    emo.attributes.abilities
  newEmos : ∀ baseId base, InPlay bases board roots (.acts (.setEmo baseId)) →
    bases baseId = some base → Accounted bases board roots account baseId false base.abilities
  given : ∀ target ability, InPlay bases board roots (.acts (.addAbility target ability)) →
    Costless bases board roots account ability
  low : ∀ emo ∈ board, InPlay bases board roots (.acts (.setEmo emo.baseId)) →
    emo.attributes.isTriple = false → ∀ base, bases emo.baseId = some base → Low base expected emo

end EmojiBattler.Mtc.Shop
