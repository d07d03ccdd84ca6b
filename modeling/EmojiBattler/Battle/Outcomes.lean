import EmojiBattler.Battle.Effects

/-! # What a hit and an action on oneself leave

The exact boards after `damage_emo` and after an action whose target is the
acting emo. -/

namespace EmojiBattler.Mtc.Battle

open EmojiBattler.Emo
open EmojiBattler.Emo.Ability.Battle (NormalAction)

variable {env : Env} {playerIndex : PlayerIndex} {emoIndex : Nat} {state after : St env}
variable {calls : List Task}

/-! ## Hits -/

/-- The first shield of an emo absorbs a hit; without one the hit costs health,
and `none` is left of an emo without health. -/
def BattleEmo.hit (damage : Nat) (emo : BattleEmo) : Option BattleEmo :=
  if .battle (.special .shield) ∈ emo.attributes.abilities then
    some { emo with attributes := { emo.attributes with
      abilities := emo.attributes.abilities.erase (.battle (.special .shield)) } }
  else if damage = 0 then some emo
  else if emo.attributes.health ≤ damage then none
  else some { emo with attributes :=
    { emo.attributes with health := emo.attributes.health - damage } }

/-- The boards on which only the emo at the index has changed, or left. -/
def BattleBoards.replace (boards : BattleBoards) (playerIndex : PlayerIndex) (emoIndex : Nat)
    (left : Option BattleEmo) : BattleBoards :=
  match left with
  | some emo => boards.setEmo playerIndex emoIndex emo
  | none => boards.setBoard playerIndex ((boards.getBoard playerIndex).eraseIdx emoIndex)

theorem BattleBoards.setBoard_getBoard (boards : BattleBoards) (playerIndex : PlayerIndex) :
    boards.setBoard playerIndex (boards.getBoard playerIndex) = boards := by
  cases playerIndex <;> rfl

theorem BattleBoards.setEmo_self {boards : BattleBoards} {emo : BattleEmo}
    (found : (boards.getBoard playerIndex)[emoIndex]? = some emo) :
    boards.setEmo playerIndex emoIndex emo = boards := by
  obtain ⟨bound, rfl⟩ := List.getElem?_eq_some_iff.mp found
  rw [BattleBoards.setEmo, List.set_getElem_self, setBoard_getBoard]

/-- The index under which `get_abilities` lists the first battle ability of a
kind is the first one of the emo, counted from `first`. -/
theorem find?_listed {abilities : List Ability} {ability : Ability.Battle} {first : Nat}
    {found : Option (Nat × Ability.Battle)}
    (search : ((abilities.zipIdx first).filterMap fun (source, abilityIndex) =>
      (battleAbility? source).map fun battle => (abilityIndex, battle)).find?
        (fun (_, battle) => battle = ability) = found) :
    match found with
    | some (abilityIndex, _) => first ≤ abilityIndex ∧ .battle ability ∈ abilities ∧
        abilities.eraseIdx (abilityIndex - first) = abilities.erase (.battle ability)
    | none => .battle ability ∉ abilities := by
  induction abilities generalizing first with
  | nil =>
      cases search
      exact List.not_mem_nil
  | cons source rest ih =>
      rw [List.zipIdx_cons, List.filterMap_cons] at search
      by_cases same : source = .battle ability
      · subst same
        simp only [battleAbility?, Option.map_some, List.find?_cons, decide_true] at search
        cases search
        simp
      · have search : ((rest.zipIdx (first + 1)).filterMap fun (source, abilityIndex) =>
            (battleAbility? source).map fun battle => (abilityIndex, battle)).find?
              (fun (_, battle) => battle = ability) = found := by
          cases source with
          | shop shop => exact search
          | battle battle =>
              have other : battle ≠ ability := fun equal => same (congrArg _ equal)
              simpa only [battleAbility?, Option.map_some, List.find?_cons, other,
                decide_false] using search
        have later := ih search
        cases found with
        | some entry =>
            obtain ⟨behind, member, erased⟩ := later
            obtain ⟨offset, position⟩ := Nat.exists_eq_add_of_le behind
            have shifted : entry.1 - first = offset + 1 := by omega
            have rested : entry.1 - (first + 1) = offset := by omega
            rw [rested] at erased
            refine ⟨by omega, List.mem_cons_of_mem _ member, ?_⟩
            rw [shifted, List.eraseIdx_cons_succ, erased,
              List.erase_cons_tail (by simpa using same)]
        | none =>
            intro member
            rcases List.mem_cons.mp member with equal | member
            · exact same equal.symm
            · exact later member

/-- The shield that `remove_shield_if_exist` finds is the first one. -/
theorem shield_listed {emo : BattleEmo} {listed : List (Nat × Ability.Battle)}
    {found : Option (Nat × Ability.Battle)} (abilities : emo.getAbilities = .ok listed)
    (search : (listed.find? fun (_, ability) => ability = .special .shield) = found) :
    match found with
    | some (abilityIndex, _) => .battle (.special .shield) ∈ emo.attributes.abilities ∧
        emo.attributes.abilities.eraseIdx abilityIndex =
          emo.attributes.abilities.erase (.battle (.special .shield))
    | none => .battle (.special .shield) ∉ emo.attributes.abilities := by
  simp only [BattleEmo.getAbilities, Result.bind_eq_ok_iff, zipU8_eq_ok_iff,
    Result.pure_eq_ok_iff] at abilities
  obtain ⟨_, ⟨_, rfl⟩, rfl⟩ := abilities
  have first := find?_listed search
  cases found with
  | some entry => exact first.2
  | none => exact first

/-- `damage_emo` does to the boards what the hit does to the emo. -/
theorem damageEmo_hit {damage : Nat} {survived : Bool} {emo : BattleEmo}
    (found : (state.getBoard playerIndex)[emoIndex]? = some emo)
    (performed : damageEmo env damage playerIndex emoIndex state =
      .ok (survived, calls, after)) :
    after.boards = state.boards.replace playerIndex emoIndex (emo.hit damage) ∧
      survived = (emo.hit damage).isSome := by
  simp only [damageEmo, removeShieldIfExist, Result.bind_eq_ok_iff,
    BattleBoards.getEmo_eq_ok_iff] at performed
  obtain ⟨shielded, ⟨other, standing, listed, abilities, removal⟩, performed⟩ := performed
  rw [found] at standing
  cases standing
  split at removal
  · rename_i abilityIndex ability search
    obtain ⟨member, erased⟩ := shield_listed abilities search
    simp only [Result.map_eq_ok_iff] at removal
    obtain ⟨_, removed, rfl⟩ := removal
    cases performed
    simp only [removeShield, callShieldRemovedAbility, Result.bind_eq_ok_iff,
      BattleBoards.getEmoMut_eq_ok_iff, Result.pure_eq_ok_iff, Prod.mk.injEq] at removed
    obtain ⟨_, standing, _, _, _, _, _, _, _, rfl⟩ := removed
    rw [found] at standing
    cases standing
    rw [BattleEmo.hit, if_pos member, erased]
    exact ⟨by simp [BattleBoards.replace], rfl⟩
  · rename_i search
    have unshielded := shield_listed abilities search
    cases removal
    rw [BattleEmo.hit, if_neg unshielded]
    dsimp only at performed
    split at performed
    · rename_i none
      cases performed
      rw [if_pos none]
      exact ⟨(BattleBoards.setEmo_self found).symm, rfl⟩
    · rename_i some
      simp only [Result.bind_eq_ok_iff, BattleBoards.getEmoMut_eq_ok_iff] at performed
      obtain ⟨_, standing, performed⟩ := performed
      rw [found] at standing
      cases standing
      rw [if_neg some]
      split at performed
      · rename_i dead
        simp only [Result.bind_eq_ok_iff, Result.pure_eq_ok_iff, Prod.mk.injEq] at performed
        obtain ⟨_, retired, rfl, rfl⟩ := performed
        rw [if_pos (by omega)]
        exact ⟨by simpa [BattleBoards.replace] using (retireEmo_cases retired).1.boards, rfl⟩
      · rename_i alive
        cases performed
        rw [if_neg (by omega)]
        exact ⟨by simp [BattleBoards.replace], rfl⟩

/-! ## Actions on oneself -/

/-- The emo with more attack and health, doubled for a triple. -/
def BattleEmo.raised (attack health : Nat) (emo : BattleEmo) : BattleEmo :=
  let (attack, health) := doubleAttackAndHealthIf emo.attributes.isTriple attack health
  if attack = 0 ∧ health = 0 then emo
  else { emo with attributes := { emo.attributes with
    attack := saturatingAddU16 emo.attributes.attack attack,
    health := saturatingAddU16 emo.attributes.health health } }

/-- The emo with less attack and health, but at least 1 of both. -/
def BattleEmo.lowered (attack health : Nat) (emo : BattleEmo) : BattleEmo :=
  let (attack, health) := doubleAttackAndHealthIf emo.attributes.isTriple attack health
  if attack = 0 ∧ health = 0 then emo
  else { emo with attributes := { emo.attributes with
    attack := max (emo.attributes.attack - attack) 1,
    health := max (emo.attributes.health - health) 1 } }

/-- What an action whose target is the acting emo makes of it; `none` for other
actions. -/
def actedOnOneself (boards : BattleBoards) (playerIndex : PlayerIndex) (emoIndex : Nat)
    (emo : BattleEmo) : NormalAction → Option BattleEmo
  | .increaseStats (.target .oneself) attack health => some (emo.raised attack health)
  | .decreaseStats (.target .oneself) attack health => some (emo.lowered attack health)
  | .increaseStatsByEmoCount side (.target .oneself) countCondition attack health =>
      let count := countEmosForStats boards playerIndex emoIndex side countCondition
      some (emo.raised (saturatingMulU16 attack count) (saturatingMulU16 health count))
  | .addBattleAbility (.target .oneself) ability =>
      match addAbilityToEmo emo.attributes.abilities ability with
      | some abilities => some { emo with attributes := { emo.attributes with abilities } }
      | none => some emo
  | _ => none

theorem increaseStats_oneself {emo : BattleEmo} {attack health : Nat}
    (found : (state.getBoard playerIndex)[emoIndex]? = some emo)
    (performed : increaseStats env playerIndex emoIndex false emo.attributes.isTriple
      (.target .oneself) attack health state = .ok after) :
    after.boards = state.boards.setEmo playerIndex emoIndex (emo.raised attack health) := by
  simp only [increaseStats, getMatchedEmoIndexsFromBoardByTargetOrRandom,
    getMatchedEmoIndexsFromBoard, Result.bind_eq_ok_iff, Result.pure_eq_ok_iff] at performed
  obtain ⟨_, ⟨_, rfl, rfl⟩, performed⟩ := performed
  simp only [Bool.false_eq_true, if_false, List.foldlM_cons, List.foldlM_nil,
    Result.bind_eq_ok_iff, Result.pure_eq_ok_iff] at performed
  obtain ⟨_, performed, rfl⟩ := performed
  unfold increaseEmoStats at performed
  unfold BattleEmo.raised
  dsimp only
  split at performed
  · rename_i unchanged
    cases performed
    rw [if_pos unchanged, BattleBoards.setEmo_self found]
  · rename_i raises
    simp only [Result.bind_eq_ok_iff, BattleBoards.getEmoMut_eq_ok_iff,
      Result.pure_eq_ok_iff] at performed
    obtain ⟨_, standing, rfl⟩ := performed
    rw [found] at standing
    cases standing
    rw [if_neg raises, BattleState.addLog_boards]

theorem decreaseStats_oneself {emo : BattleEmo} {attack health : Nat}
    (found : (state.getBoard playerIndex)[emoIndex]? = some emo)
    (performed : decreaseStats env playerIndex emoIndex false emo.attributes.isTriple
      (.target .oneself) attack health state = .ok after) :
    after.boards = state.boards.setEmo playerIndex emoIndex (emo.lowered attack health) := by
  simp only [decreaseStats, getMatchedEmoIndexsFromBoardByTargetOrRandom,
    getMatchedEmoIndexsFromBoard, Result.bind_eq_ok_iff, Result.pure_eq_ok_iff] at performed
  obtain ⟨_, ⟨_, rfl, rfl⟩, performed⟩ := performed
  simp only [Bool.false_eq_true, if_false, List.foldlM_cons, List.foldlM_nil,
    Result.bind_eq_ok_iff, Result.pure_eq_ok_iff] at performed
  obtain ⟨_, performed, rfl⟩ := performed
  unfold decreaseEmoStats at performed
  unfold BattleEmo.lowered
  dsimp only
  split at performed
  · rename_i unchanged
    cases performed
    rw [if_pos unchanged, BattleBoards.setEmo_self found]
  · rename_i lowers
    simp only [Result.bind_eq_ok_iff, BattleBoards.getEmoMut_eq_ok_iff,
      Result.pure_eq_ok_iff] at performed
    obtain ⟨_, standing, rfl⟩ := performed
    rw [found] at standing
    cases standing
    rw [if_neg lowers, BattleState.addLog_boards]

/-- An action on oneself changes the emo at the index of the action and no
other. -/
theorem callAbilityNormalAction_oneself {action : NormalAction} {emo changed : BattleEmo}
    (found : (state.getBoard playerIndex)[emoIndex]? = some emo)
    (changes : actedOnOneself state.boards playerIndex emoIndex emo action = some changed)
    (performed : callAbilityNormalAction env playerIndex action emoIndex none
      emo.attributes.isTriple state = .ok (calls, after)) :
    calls = [] ∧ after.boards = state.boards.setEmo playerIndex emoIndex changed := by
  simp only [callAbilityNormalAction, Result.bind_eq_ok_iff] at performed
  obtain ⟨_, _, performed⟩ := performed
  unfold actedOnOneself at changes
  split at changes
  · cases changes
    simp only [Result.bind_eq_ok_iff, Result.pure_eq_ok_iff, Prod.mk.injEq] at performed
    obtain ⟨_, performed, rfl, rfl⟩ := performed
    exact ⟨rfl, increaseStats_oneself found performed⟩
  · cases changes
    simp only [Result.bind_eq_ok_iff, Result.pure_eq_ok_iff, Prod.mk.injEq] at performed
    obtain ⟨_, performed, rfl, rfl⟩ := performed
    exact ⟨rfl, decreaseStats_oneself found performed⟩
  · cases changes
    simp only [Result.bind_eq_ok_iff, Result.pure_eq_ok_iff, Prod.mk.injEq] at performed
    obtain ⟨_, performed, rfl, rfl⟩ := performed
    exact ⟨rfl, increaseStats_oneself found performed⟩
  · simp only [Result.bind_eq_ok_iff, Result.pure_eq_ok_iff, Prod.mk.injEq] at performed
    obtain ⟨_, performed, rfl, rfl⟩ := performed
    refine ⟨rfl, ?_⟩
    simp only [addBattleAbility, getMatchedEmoIndexsFromBoard, Result.bind_eq_ok_iff,
      Result.pure_eq_ok_iff] at performed
    obtain ⟨_, rfl, performed⟩ := performed
    simp only [Option.isSome_none, Bool.false_eq_true, if_false, List.foldlM_cons,
      List.foldlM_nil, addAbilityToEmoAt, Result.bind_eq_ok_iff,
      BattleBoards.getEmoMut_eq_ok_iff, Result.pure_eq_ok_iff] at performed
    obtain ⟨_, ⟨_, standing, performed⟩, rfl⟩ := performed
    rw [found] at standing
    cases standing
    split at performed
    · rename_i none
      cases performed
      simp only [none, Option.some.injEq] at changes
      rw [← changes, BattleBoards.setEmo_self found]
    · rename_i abilities some
      cases performed
      simp only [some, Option.some.injEq] at changes
      rw [← changes, BattleState.addLog_boards]
  · cases changes

end EmojiBattler.Mtc.Battle
