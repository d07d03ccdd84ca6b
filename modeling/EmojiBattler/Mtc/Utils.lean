import EmojiBattler.Library.Sampler
import EmojiBattler.Library.Simulation
import EmojiBattler.Codec.Arithmetic

/-! # Helpers shared by the shop and the battle -/

namespace EmojiBattler

open Emo

def Emo.Bases.find (bases : Bases) (id : Nat) : Result Base :=
  okOr (bases id) (.emoBaseNotFound id)

namespace Mtc

/-- What a match is played with. -/
structure Env where
  emoBases : Bases
  sampler : Sampling.Sampler
  /-- The `view-logs` feature. -/
  isViewLogsEnabled : Bool := false

/-- The same match with or without logs. -/
abbrev Env.withLogs (env : Env) (isViewLogsEnabled : Bool) : Env := { env with isViewLogsEnabled }

def boardEmoMaxCount : Nat := 7

def buildEmoAttributes (base : Base) (isTriple : Bool) : Attributes where
  attack := if isTriple then saturatingMulU16 base.attack 2 else base.attack
  health := if isTriple then saturatingMulU16 base.health 2 else base.health
  abilities := base.abilities
  isTriple := isTriple

def isMatchedTyp (requiredTyp : Option Typ) (testTyp : Typ) : Bool :=
  match requiredTyp with
  | some typ => typ = testTyp
  | none => true

def isMatchedTriple (requiredTriple : Option Bool) (testTriple : Bool) : Bool :=
  match requiredTriple with
  | some required => testTriple = required
  | none => true

def isMatchedTypAndTriple (typAndTriple : Ability.TypOptAndIsTripleOpt) (typ : Typ)
    (isTriple : Bool) : Bool :=
  isMatchedTyp typAndTriple.typOpt typ && isMatchedTriple typAndTriple.isTripleOpt isTriple

def doubleAttackAndHealthIf (condition : Bool) (attack health : Nat) : Nat × Nat :=
  if condition then (saturatingMulU16 attack 2, saturatingMulU16 health 2) else (attack, health)

/-- `slice::swap` -/
def swapElements (values : List α) (i j : Nat) : Result (List α) := do
  let x ← okOr values[i]? .indexOutOfBounds
  let y ← okOr values[j]? .indexOutOfBounds
  return (values.set i y).set j x

def getPoolEmoCountByGrade (grade : Nat) : Result Nat :=
  match grade with
  | 1 => .ok 7
  | 2 => .ok 6
  | 3 => .ok 6
  | 4 => .ok 5
  | 5 => .ok 5
  | 6 => .ok 4
  | _ => .error (.invalidGrade grade)

end Mtc

@[simp] theorem Emo.Bases.find_eq_ok_iff {bases : Bases} {id : Nat} {base : Base} :
    bases.find id = .ok base ↔ bases id = some base := by
  simp [Bases.find]

@[simp] theorem Mtc.buildEmoAttributes_isTriple (base : Base) (isTriple : Bool) :
    (Mtc.buildEmoAttributes base isTriple).isTriple = isTriple := rfl

@[simp] theorem Mtc.buildEmoAttributes_abilities (base : Base) (isTriple : Bool) :
    (Mtc.buildEmoAttributes base isTriple).abilities = base.abilities := rfl

open Simulation in
theorem Mtc.maps_okOr {f : α → β} {value : Option α} {error imageError : MtcError} :
    Maps f (okOr value error) (okOr (value.map f) imageError) := by
  cases value with
  | none => exact Simulates.error
  | some value => exact Maps.pure f value

/-- Whatever is swapped, the elements stay the same. -/
theorem Mtc.swapElements_perm {values swapped : List α} {i j : Nat}
    (performed : Mtc.swapElements values i j = .ok swapped) : swapped.Perm values := by
  simp only [Mtc.swapElements, Result.bind_eq_ok_iff, okOr_eq_ok_iff, Result.pure_eq_ok_iff]
    at performed
  obtain ⟨x, foundX, y, foundY, rfl⟩ := performed
  obtain ⟨boundI, rfl⟩ := List.getElem?_eq_some_iff.mp foundX
  obtain ⟨boundJ, rfl⟩ := List.getElem?_eq_some_iff.mp foundY
  exact List.set_set_perm boundI boundJ

end EmojiBattler
