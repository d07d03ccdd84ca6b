import EmojiBattler.Battle.Board

/-! # What a task comes to

For every task that can fail or that branches, all that it does if it
succeeds. -/

namespace EmojiBattler.Mtc.Battle

open EmojiBattler.Emo
open EmojiBattler.Emo.Ability.Battle (NormalAction AsAllyAction GeneralAsOneselfTrigger)

variable {env : Env} {state after : St env} {calls : List Task}

/-! ## Attacks -/

theorem attack_cases {attackPlayerIndex : PlayerIndex}
    (performed : perform env (.attack attackPlayerIndex) state = .ok (calls, after)) :
    ∃ attackEmoIndex defenseEmoIndex isLowestAttack rng,
      getAttackEmoIndex (state.getBoard attackPlayerIndex) = .ok attackEmoIndex ∧
      getDefenseEmoIndex env (state.getBoard (switchPlayerIndex attackPlayerIndex))
        isLowestAttack state.rng = .ok (defenseEmoIndex, rng) ∧
      calls = [.attackDamage attackPlayerIndex attackEmoIndex defenseEmoIndex] ∧
      after = ({ state with rng } : St env).addLog env
        (.attack attackPlayerIndex attackEmoIndex defenseEmoIndex) := by
  simp only [perform, attack, getAttackAndDefenseEmoIndexes, Result.bind_eq_ok_iff,
    Result.pure_eq_ok_iff, Prod.mk.injEq] at performed
  obtain ⟨_, ⟨attackEmoIndex, chosen, _, _, _, _, ⟨defenseEmoIndex, rng⟩, defended, rfl⟩, rfl,
    rfl⟩ := performed
  exact ⟨attackEmoIndex, defenseEmoIndex, _, rng, chosen, defended, rfl, rfl⟩

theorem attackDamage_cases {attackPlayerIndex : PlayerIndex} {attackEmoIndex defenseEmoIndex : Nat}
    (performed : perform env (.attackDamage attackPlayerIndex attackEmoIndex defenseEmoIndex)
      state = .ok (calls, after)) :
    ∃ attackEmo defenseEmo survived made,
      (state.getBoard attackPlayerIndex)[attackEmoIndex]? = some attackEmo ∧
      (state.getBoard (switchPlayerIndex attackPlayerIndex))[defenseEmoIndex]? =
        some defenseEmo ∧
      damageEmo env attackEmo.attributes.attack (switchPlayerIndex attackPlayerIndex)
        defenseEmoIndex state = .ok (survived, made, after) ∧
      calls = made ++ [.attackDamageCounter attackPlayerIndex attackEmoIndex
        defenseEmo.attributes.attack attackEmo.id] := by
  simp only [perform, attackDamage, Result.bind_eq_ok_iff, BattleBoards.getEmo_eq_ok_iff,
    Result.pure_eq_ok_iff, Prod.mk.injEq] at performed
  obtain ⟨attackEmo, found, defenseEmo, defended, ⟨survived, made, _⟩, damaged, rfl, rfl⟩ :=
    performed
  exact ⟨attackEmo, defenseEmo, survived, made, found, defended, damaged, rfl⟩

theorem attackDamageCounter_cases {attackPlayerIndex : PlayerIndex}
    {attackEmoIndex defenseEmoAttack attackEmoId : Nat}
    (performed : perform env (.attackDamageCounter attackPlayerIndex attackEmoIndex
      defenseEmoAttack attackEmoId) state = .ok (calls, after)) :
    ((state.getBoard attackPlayerIndex).length ≤ attackEmoIndex ∧ calls = [] ∧ after = state) ∨
    ∃ survived made,
      attackEmoIndex < (state.getBoard attackPlayerIndex).length ∧
      damageEmo env defenseEmoAttack attackPlayerIndex attackEmoIndex state =
        .ok (survived, made, after) ∧
      calls = made ++ if survived then
        [.countAttackAndSurvived attackPlayerIndex attackEmoIndex attackEmoId] else [] := by
  simp only [perform, attackDamageCounter] at performed
  split at performed
  · rename_i within
    simp only [Result.bind_eq_ok_iff] at performed
    obtain ⟨⟨survived, made, _⟩, damaged, performed⟩ := performed
    refine .inr ⟨survived, made, BattleBoards.hasEmoAtIndex_iff.mp within, ?_⟩
    cases survived with
    | true =>
        cases performed
        exact ⟨damaged, rfl⟩
    | false =>
        cases performed
        exact ⟨damaged, (List.append_nil _).symm⟩
  · rename_i missing
    cases performed
    exact .inl ⟨Nat.le_of_not_lt fun within => missing (BattleBoards.hasEmoAtIndex_iff.mpr within),
      rfl, rfl⟩

theorem countAttackAndSurvived_cases {attackPlayerIndex : PlayerIndex}
    {attackEmoIndex attackEmoId : Nat}
    (performed : perform env (.countAttackAndSurvived attackPlayerIndex attackEmoIndex attackEmoId)
      state = .ok (calls, after)) :
    ∃ emo, (state.getBoard attackPlayerIndex)[attackEmoIndex]? = some emo ∧ calls = [] ∧
      after = { state with
        boards := state.boards.setEmo attackPlayerIndex attackEmoIndex
          { emo with attackAndSurvivedCount := emo.attackAndSurvivedCount + 1 } } := by
  simp only [perform, countAttackAndSurvived, Result.bind_eq_ok_iff,
    BattleBoards.getEmoMut_eq_ok_iff, Result.pure_eq_ok_iff, addU8_eq_ok_iff,
    Prod.mk.injEq] at performed
  obtain ⟨emo, found, _, ⟨_, rfl⟩, rfl, rfl⟩ := performed
  exact ⟨emo, found, rfl, rfl⟩

/-! ## Calls for the abilities of a board -/

/-- The call for an ability that an emo of the board has as oneself, with one of
the triggers. -/
def CallsOneself (boards : BattleBoards) (playerIndex : PlayerIndex)
    (triggers : GeneralAsOneselfTrigger → Prop) (call : Task) : Prop :=
  ∃ entry trigger action, triggers trigger ∧ entry ∈ boards.getBoardAbilities playerIndex ∧
    entry.ability = .general (.asOneself trigger action) ∧
    call = .callAbilityNormalActionAsOneself playerIndex action entry.emoIndex none
      (some entry.ownerId)

theorem mem_callPreAbilitiesOf {playerIndex : PlayerIndex} {call : Task}
    (member : call ∈ (callPreAbilitiesOf env playerIndex state).1) :
    CallsOneself state.boards playerIndex (· = .pre) call := by
  obtain ⟨entry, listed, made⟩ := List.mem_filterMap.mp member
  split at made
  · rename_i action ability
    cases made
    exact ⟨entry, _, action, rfl, listed, ability, rfl⟩
  · cases made

theorem mem_callEmoRetireRivalAbilities {playerIndex : PlayerIndex} {retiredEmo : BattleEmo}
    {call : Task}
    (member : call ∈ (callEmoRetireRivalAbilities env playerIndex retiredEmo state).1) :
    CallsOneself state.boards (switchPlayerIndex playerIndex)
      (fun trigger => ∃ typAndTriple, trigger = .rivalRetire typAndTriple) call := by
  obtain ⟨entry, listed, made⟩ := List.mem_filterMap.mp member
  split at made
  · rename_i action ability
    split at made
    · cases made
      exact ⟨entry, _, action, ⟨_, rfl⟩, listed, ability, rfl⟩
    · cases made
  · cases made

theorem mem_callEmoRetireBoardAbilities {playerIndex : PlayerIndex} {retiredEmoIndex : Nat}
    {retiredEmo : BattleEmo} {call : Task}
    (member : call ∈ (callEmoRetireBoardAbilities env playerIndex retiredEmoIndex retiredEmo
      state).1) :
    (∃ entry typAndTriple action, entry ∈ state.boards.getBoardAbilities playerIndex ∧
      entry.ability = .general (.asAlly (.allyRetire typAndTriple) action) ∧
      call = .callAbilityGeneralAsAllyAction playerIndex action retiredEmoIndex
        (some retiredEmo) entry.emoIndex entry.ownerId) ∨
      CallsOneself state.boards playerIndex
        (fun trigger => ∃ typAndTriple, trigger = .allyRetire typAndTriple) call := by
  rcases List.mem_append.mp member with asAlly | asOneself
  · obtain ⟨entry, listed, made⟩ := List.mem_filterMap.mp asAlly
    split at made
    · rename_i action ability
      split at made
      · cases made
        exact .inl ⟨entry, _, action, listed, ability, rfl⟩
      · cases made
    · cases made
  · obtain ⟨entry, listed, made⟩ := List.mem_filterMap.mp asOneself
    split at made
    · rename_i action ability
      split at made
      · cases made
        exact .inr ⟨entry, _, action, ⟨_, rfl⟩, listed, ability, rfl⟩
      · cases made
    · cases made

/-! ## Actions -/

/-- The action that a task is about to perform, for whom, and with which index
and retired emo. -/
def Task.act? : Task → Option (PlayerIndex × NormalAction × Nat × Option BattleEmo)
  | .callAbilityNormalActionAsOneself playerIndex action actionEmoIndex retiredActionEmoOpt _ =>
      some (playerIndex, action, actionEmoIndex, retiredActionEmoOpt)
  | .callAbilityGeneralAsAllyAction playerIndex (.oneselfTripleNormal action) allyEmoIndex
      retiredAllyEmoOpt _ _ => some (playerIndex, action, allyEmoIndex, retiredAllyEmoOpt)
  | .callShieldRemovedAbilityOf playerIndex action emoIndex _ _ _ =>
      some (playerIndex, action, emoIndex, none)
  | _ => none

/-- A task with an action performs it or does nothing. -/
theorem act_cases {task : Task} {playerIndex : PlayerIndex} {action : NormalAction}
    {actionEmoIndex : Nat} {retiredActionEmoOpt : Option BattleEmo}
    (acts : task.act? = some (playerIndex, action, actionEmoIndex, retiredActionEmoOpt))
    (performed : perform env task state = .ok (calls, after)) :
    (retiredActionEmoOpt = none ∧ calls = [] ∧ after = state) ∨
      ∃ isTripleAction, callAbilityNormalAction env playerIndex action actionEmoIndex
        retiredActionEmoOpt isTripleAction state = .ok (calls, after) := by
  unfold Task.act? at acts
  split at acts
  · cases acts
    simp only [perform, callAbilityNormalActionAsOneself, Result.bind_eq_ok_iff] at performed
    obtain ⟨actionEmo, _, performed⟩ := performed
    exact .inr ⟨_, performed⟩
  · cases acts
    simp only [perform, callAbilityGeneralAsAllyAction, Result.bind_eq_ok_iff] at performed
    obtain ⟨oneselfEmo, _, performed⟩ := performed
    exact .inr ⟨_, performed⟩
  · cases acts
    simp only [perform, callShieldRemovedAbilityOf, callAbilityNormalActionAsOneself] at performed
    split at performed
    · simp only [Result.bind_eq_ok_iff] at performed
      obtain ⟨emo, _, performed⟩ := performed
      split at performed
      · cases performed
        exact .inl ⟨rfl, rfl, rfl⟩
      · simp only [Result.bind_eq_ok_iff] at performed
        obtain ⟨actionEmo, _, performed⟩ := performed
        exact .inr ⟨_, performed⟩
    · simp only [Result.bind_eq_ok_iff] at performed
      obtain ⟨actionEmo, _, performed⟩ := performed
      exact .inr ⟨_, performed⟩
  · cases acts

/-- The ally's retire actions are called, and nothing happens to the boards. -/
theorem custom_cases {playerIndex : PlayerIndex} {asAllyAction : AsAllyAction}
    {allyEmoIndex : Nat} {retiredAllyEmoOpt : Option BattleEmo} {oneselfEmoIndex ownerId : Nat}
    (performed : perform env (.callAbilityGeneralAsAllyAction playerIndex (.custom asAllyAction)
      allyEmoIndex retiredAllyEmoOpt oneselfEmoIndex ownerId) state = .ok (calls, after)) :
    after = state ∧ ∃ allyEmo,
      getActionEmo env playerIndex allyEmoIndex retiredAllyEmoOpt state = .ok allyEmo ∧
      ∀ call ∈ calls, ∃ ability action,
        .battle ability ∈ allyEmo.attributes.abilities ∧ retireAction? ability = some action ∧
        call = .callAbilityNormalActionAsOneself playerIndex action allyEmoIndex
          retiredAllyEmoOpt none := by
  cases asAllyAction
  simp only [perform, callAbilityGeneralAsAllyAction, callAbilityAsAllyAction,
    Result.bind_eq_ok_iff, Result.pure_eq_ok_iff, Prod.mk.injEq] at performed
  obtain ⟨allyEmo, found, _, _, abilities, indexed, rfl, rfl⟩ := performed
  refine ⟨rfl, allyEmo, found, fun call member => ?_⟩
  obtain ⟨⟨abilityIndex, ability⟩, listed, made⟩ := List.mem_flatMap.mp member
  cases retires : retireAction? ability with
  | some action =>
      simp only [retires] at made
      have present := BattleEmo.mem_getAbilities indexed listed
      exact ⟨ability, action, List.mem_of_getElem? present, retires,
        List.eq_of_mem_replicate made⟩
  | none => simp [retires] at made

theorem damageAllEmosOf_cases {playerIndex : PlayerIndex} {damage emoId : Nat}
    (performed : perform env (.damageAllEmosOf playerIndex damage emoId) state =
      .ok (calls, after)) :
    (calls = [] ∧ after = state) ∨
      ∃ survived emoIndex,
        damageEmo env damage playerIndex emoIndex state = .ok (survived, calls, after) := by
  simp only [perform] at performed
  split at performed
  · simp only [Result.map_eq_ok_iff] at performed
    obtain ⟨⟨survived, _, _⟩, damaged, same⟩ := performed
    cases same
    exact .inr ⟨survived, _, damaged⟩
  · cases performed
    exact .inl ⟨rfl, rfl⟩

/-! ## The march -/

theorem marchBegin_cases {tick : Tick}
    (performed : perform env (.marchBegin tick) state = .ok (calls, after)) :
    after = state ∧
      ((∃ grades, getRemainingGradesIfFinished env state.boards = .ok (some grades) ∧
          calls = []) ∨
        calls = [.marchLoop tick]) := by
  simp only [perform, marchBegin, Result.bind_eq_ok_iff] at performed
  obtain ⟨finished, remaining, performed⟩ := performed
  cases finished with
  | some grades =>
      cases performed
      exact ⟨rfl, .inl ⟨grades, remaining, rfl⟩⟩
  | none =>
      cases performed
      exact ⟨rfl, .inr rfl⟩

theorem marchNext_cases {tick : Tick}
    (performed : perform env (.marchNext tick) state = .ok (calls, after)) :
    after = state ∧
      ((∃ grades, getRemainingGradesIfFinished env state.boards = .ok (some grades) ∧
          calls = []) ∨
        (tick.num + 1 ≤ u8Max ∧ calls = [.marchLoop { tick with num := tick.num + 1 }])) := by
  simp only [perform, marchNext, Result.bind_eq_ok_iff] at performed
  obtain ⟨finished, remaining, performed⟩ := performed
  cases finished with
  | some grades =>
      cases performed
      exact ⟨rfl, .inl ⟨grades, remaining, rfl⟩⟩
  | none =>
      simp only [Result.bind_eq_ok_iff, Tick.next, Result.pure_eq_ok_iff,
        Prod.mk.injEq] at performed
      obtain ⟨next, ticked, rfl, rfl⟩ := performed
      split at ticked
      · rename_i room
        cases ticked
        exact ⟨rfl, .inr ⟨room, rfl⟩⟩
      · cases ticked

end EmojiBattler.Mtc.Battle
