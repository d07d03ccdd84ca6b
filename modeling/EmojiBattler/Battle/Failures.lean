import EmojiBattler.Battle.Effects

/-! # When a task of the cascade fails

On legal bases the only failures left are those of an index or a counter that
the boards have outgrown. -/

namespace EmojiBattler.Mtc.Battle

open EmojiBattler.Emo Sampling CallMachine
open EmojiBattler.Emo.Ability (Side Destination Target TargetOrRandom TypOptAndIsTripleOpt)
open EmojiBattler.Emo.Ability.Battle (NormalAction GeneralAsAllyAction AsAllyAction)

/-! ## Legal input -/

mutual

/-- Every base id that the ability names resolves and every divisor of it is
positive.  The ability in a trigger is only compared. -/
def LegalBattle (bases : Bases) : Ability.Battle → Prop
  | .general general => LegalGeneral bases general
  | .special _ => True

def LegalGeneral (bases : Bases) : Ability.Battle.General → Prop
  | .asOneself _ action => LegalNormalAction bases action
  | .asAlly _ action => LegalAsAllyAction bases action

def LegalAsAllyAction (bases : Bases) : GeneralAsAllyAction → Prop
  | .oneselfTripleNormal action => LegalNormalAction bases action
  | .custom _ => True

def LegalNormalAction (bases : Bases) : NormalAction → Prop
  | .setEmo _ baseId => ∃ base, bases baseId = some base
  | .setEmosByAttackDiv _ baseId divisor => (∃ base, bases baseId = some base) ∧ divisor ≠ 0
  | .addBattleAbility _ ability => LegalBattle bases ability
  | .increaseStats .. | .decreaseStats .. | .increaseStatsByEmoCount .. | .damageAll .. => True

end

def LegalAbilities (bases : Bases) (abilities : List Ability) : Prop :=
  ∀ battle, .battle battle ∈ abilities → LegalBattle bases battle

def LegalBases (bases : Bases) : Prop :=
  ∀ id base, bases id = some base → LegalAbilities bases base.abilities

def LegalBoards (bases : Bases) (boards : BattleBoards) : Prop :=
  ∀ playerIndex, ∀ emo ∈ boards.getBoard playerIndex, LegalAbilities bases emo.attributes.abilities

/-- What the tasks of the cascade carry is legal. -/
structure LegalTask (bases : Bases) (task : Task) : Prop where
  action : ∀ action, task.action? = some action → LegalNormalAction bases action
  retiredEmo : ∀ emo, task.retiredEmo? = some emo → LegalAbilities bases emo.attributes.abilities
  setEmo : ∀ playerIndex emoIndex baseId isTriple attackAndSurvivedCount side,
    task = .setEmo playerIndex emoIndex baseId isTriple attackAndSurvivedCount side →
      ∃ base, bases baseId = some base

/-! ## The condition -/

/-- The abilities of the emo can be counted with a `u8`. -/
def Countable (emo : BattleEmo) : Prop := emo.attributes.abilities.length ≤ u8Max

/-- A new emo can stand at the index, or there is no room for it anyway. -/
def SetInRange (board : List BattleEmo) (emoIndex : Nat) : Prop :=
  board.length < boardEmoMaxCount → emoIndex ≤ board.length

/-- The emo left of the index exists unless the index is the leftmost. -/
def TargetInRange (board : List BattleEmo) (emoIndex : Nat) : TargetOrRandom → Prop
  | .target (.others .left _) => emoIndex ≤ board.length
  | _ => True

/-- The index of the acting emo is that of an emo, or, where the acting emo
has retired, one that the action can still use. -/
def ActionInRange (board : List BattleEmo) (action : NormalAction) (actionEmoIndex : Nat)
    (isActionEmoRetired : Bool) : Prop :=
  if isActionEmoRetired then
    match action with
    | .setEmo .ally _ => SetInRange board actionEmoIndex
    | .increaseStats targetOrRandom _ _ | .decreaseStats targetOrRandom _ _
    | .increaseStatsByEmoCount _ targetOrRandom _ _ _ | .addBattleAbility targetOrRandom _ =>
        TargetInRange board actionEmoIndex targetOrRandom
    | _ => True
  else actionEmoIndex < board.length

/-- The indexes that the task carries fit the boards that it finds. -/
def InRange (task : Task) (boards : BattleBoards) : Prop :=
  match task with
  | .attack attackPlayerIndex =>
      ∀ attackEmoIndex emo, getAttackEmoIndex (boards.getBoard attackPlayerIndex) =
        .ok attackEmoIndex → (boards.getBoard attackPlayerIndex)[attackEmoIndex]? = some emo →
          Countable emo
  | .attackDamage attackPlayerIndex _ defenseEmoIndex =>
      ∀ emo, (boards.getBoard (switchPlayerIndex attackPlayerIndex))[defenseEmoIndex]? =
        some emo → Countable emo
  | .attackDamageCounter attackPlayerIndex attackEmoIndex _ _ =>
      ∀ emo, (boards.getBoard attackPlayerIndex)[attackEmoIndex]? = some emo → Countable emo
  | .countAttackAndSurvived attackPlayerIndex attackEmoIndex _ =>
      ∃ emo, (boards.getBoard attackPlayerIndex)[attackEmoIndex]? = some emo ∧
        emo.attackAndSurvivedCount < u8Max
  | .callAbilityNormalActionAsOneself playerIndex action actionEmoIndex retiredActionEmoOpt _ =>
      ActionInRange (boards.getBoard playerIndex) action actionEmoIndex retiredActionEmoOpt.isSome
  | .callAbilityGeneralAsAllyAction playerIndex action allyEmoIndex retiredAllyEmoOpt
      oneselfEmoIndex _ =>
      oneselfEmoIndex < (boards.getBoard playerIndex).length ∧
        match action with
        | .oneselfTripleNormal action =>
            ActionInRange (boards.getBoard playerIndex) action allyEmoIndex
              retiredAllyEmoOpt.isSome
        | .custom .triggerRetireActions =>
            ∃ emo, (retiredAllyEmoOpt <|> (boards.getBoard playerIndex)[allyEmoIndex]?) =
              some emo ∧ Countable emo
  | .callShieldRemovedAbilityOf playerIndex _ emoIndex _ _ _ =>
      emoIndex < (boards.getBoard playerIndex).length
  | .setEmo playerIndex emoIndex _ _ _ side =>
      side = .ally → SetInRange (boards.getBoard playerIndex) emoIndex
  | .damageAllEmosOf playerIndex _ emoId =>
      ∀ emoIndex emo, boards.findEmoIndexById playerIndex emoId = some emoIndex →
        (boards.getBoard playerIndex)[emoIndex]? = some emo → Countable emo
  | _ => True

variable {env : Env}

/-! ## Setting emos -/

theorem addEmo_succeeds_iff {playerIndex : PlayerIndex} {emoIndex : Nat} {emo : BattleEmo}
    {state : St env} :
    Succeeds (addEmo env playerIndex emoIndex emo state) ↔
      SetInRange (state.getBoard playerIndex) emoIndex := by
  unfold addEmo SetInRange
  dsimp only [BattleBoards.countBoardEmos]
  by_cases room : (state.boards.getBoard playerIndex).length < boardEmoMaxCount
  · rw [if_pos room]
    constructor
    · intro succeeds _
      simp only [succeeds_bind_iff, ensure_eq_ok_iff] at succeeds
      obtain ⟨_, bound, _⟩ := succeeds
      exact bound
    · intro bound
      simp only [succeeds_bind_iff, ensure_eq_ok_iff]
      refine ⟨(), bound room, emo, ?_, succeeds_pure _⟩
      rw [BattleBoards.getEmo_eq_ok_iff, BattleBoards.getBoard_setBoard,
        BattleState.addLog_getBoard, List.getElem?_insertIdx_self, if_pos (bound room)]
  · rw [if_neg room]
    exact iff_of_true (succeeds_pure _) fun absurd => (room absurd).elim

theorem setEmo_succeeds_iff {playerIndex : PlayerIndex} {emoIndex baseId : Nat}
    {isTriple : Bool} {attackAndSurvivedCount : Nat} {side : Side} {state : St env}
    (resolved : ∃ base, env.emoBases baseId = some base) :
    Succeeds (setEmo env playerIndex emoIndex baseId isTriple attackAndSurvivedCount side
      state) ↔ (side = .ally → SetInRange (state.getBoard playerIndex) emoIndex) := by
  obtain ⟨base, resolved⟩ := resolved
  unfold setEmo
  rw [succeeds_bind_iff]
  simp only [Emo.Bases.find_eq_ok_iff, resolved, Option.some.injEq, exists_eq_left']
  cases side with
  | ally => simp [setEmoAlly, addEmo_succeeds_iff]
  | rival => simp [setEmoRival, addEmo_succeeds_iff, SetInRange]

/-! ## Targets -/

/-- All indexes are those of emos. -/
def Within (board : List BattleEmo) (indexes : List Nat) : Prop :=
  ∀ index ∈ indexes, index < board.length

theorem within_otherEmos {board : List BattleEmo} {emoIndex : Nat} {isActionEmoRetired : Bool}
    (accepts : BattleEmo × Nat → Bool) :
    Within board (((otherEmos board emoIndex isActionEmoRetired).filter accepts).map
      Prod.snd) := by
  intro index member
  obtain ⟨⟨emo, other⟩, accepted, rfl⟩ := List.mem_map.mp member
  have listed := List.mem_of_mem_filter (List.mem_of_mem_filter accepted)
  exact (List.getElem?_eq_some_iff.mp (List.mem_zipIdx_iff_getElem?.mp listed)).1

theorem getMatchedEmoIndexsFromBoard_succeeds_iff {board : List BattleEmo} {emoIndex : Nat}
    {target : Target} {isActionEmoRetired : Bool} :
    Succeeds (getMatchedEmoIndexsFromBoard board emoIndex target isActionEmoRetired) ↔
      TargetInRange board emoIndex (.target target) := by
  cases target with
  | oneself => exact iff_of_true (succeeds_pure _) trivial
  | others destination typAndTriple =>
      simp only [getMatchedEmoIndexsFromBoard, succeeds_bind_iff, succeeds_pure, and_true]
      cases destination with
      | right => exact iff_of_true ⟨_, rfl⟩ trivial
      | all => exact iff_of_true ⟨_, rfl⟩ trivial
      | left =>
          cases emoIndex with
          | zero => exact iff_of_true ⟨_, rfl⟩ (Nat.zero_le _)
          | succ index =>
              have present : (∃ emo, board[index]? = some emo) ↔ index < board.length := by
                rw [← Option.isSome_iff_exists, isSome_getElem?]
              simpa [getEmosWithIndex, checkedSub, TargetInRange, Nat.succ_le_iff] using present

theorem within_getMatchedEmoIndexsFromBoard {board : List BattleEmo} {emoIndex : Nat}
    {target : Target} {isActionEmoRetired : Bool} {indexes : List Nat}
    (acting : isActionEmoRetired = false → emoIndex < board.length)
    (matched : getMatchedEmoIndexsFromBoard board emoIndex target isActionEmoRetired =
      .ok indexes) : Within board indexes := by
  cases target with
  | oneself =>
      cases matched
      cases isActionEmoRetired with
      | true => exact List.forall_mem_nil _
      | false =>
          intro index member
          rw [List.mem_singleton.mp member]
          exact acting rfl
  | others destination typAndTriple =>
      simp only [getMatchedEmoIndexsFromBoard, Result.bind_eq_ok_iff,
        Result.pure_eq_ok_iff] at matched
      obtain ⟨emosWithIndex, found, rfl⟩ := matched
      have present : ∀ entry ∈ emosWithIndex, board[entry.2]? = some entry.1 := by
        cases destination with
        | right =>
            cases found
            intro entry member
            obtain ⟨emo, listed, rfl⟩ := List.mem_map.mp member
            simpa using listed
        | all =>
            cases found
            intro entry member
            exact List.mem_zipIdx_iff_getElem?.mp (List.mem_of_mem_filter member)
        | left =>
            simp only [getEmosWithIndex] at found
            split at found
            · simp only [Result.bind_eq_ok_iff, okOr_eq_ok_iff, Result.pure_eq_ok_iff] at found
              obtain ⟨emo, standing, rfl⟩ := found
              intro entry member
              rw [List.mem_singleton.mp member]
              exact standing
            · cases found
              exact List.forall_mem_nil _
      intro index member
      obtain ⟨entry, accepted, rfl⟩ := List.mem_map.mp member
      exact (List.getElem?_eq_some_iff.mp (present entry (List.mem_of_mem_filter accepted))).1

/-- Sampling and shuffling keep to the candidates. -/
theorem mem_of_mem_shuffled {rng rng' : env.sampler.Rng} {candidates : List Nat} {count : Nat}
    {index : Nat}
    (member : index ∈ (env.sampler.shuffleAll rng'
      (env.sampler.chooseMultipleFrom rng candidates count).1).1) : index ∈ candidates :=
  mem_of_mem_pick (mem_of_mem_pick member)

theorem matched_succeeds_iff {board : List BattleEmo} {emoIndex : Nat}
    {targetOrRandom : TargetOrRandom} {isActionEmoRetired : Bool} {rng : env.sampler.Rng} :
    Succeeds (getMatchedEmoIndexsFromBoardByTargetOrRandom env board emoIndex targetOrRandom
      isActionEmoRetired rng) ↔ TargetInRange board emoIndex targetOrRandom := by
  cases targetOrRandom with
  | target target =>
      rw [← @getMatchedEmoIndexsFromBoard_succeeds_iff _ _ _ isActionEmoRetired]
      simp only [getMatchedEmoIndexsFromBoardByTargetOrRandom, succeeds_bind_iff, succeeds_pure,
        and_true]
      rfl
  | random typAndTriple count => exact iff_of_true (succeeds_pure _) trivial

theorem within_matched {board : List BattleEmo} {emoIndex : Nat}
    {targetOrRandom : TargetOrRandom} {isActionEmoRetired : Bool} {rng rng' : env.sampler.Rng}
    {indexes : List Nat} (acting : isActionEmoRetired = false → emoIndex < board.length)
    (matched : getMatchedEmoIndexsFromBoardByTargetOrRandom env board emoIndex targetOrRandom
      isActionEmoRetired rng = .ok (indexes, rng')) : Within board indexes := by
  cases targetOrRandom with
  | target target =>
      simp only [getMatchedEmoIndexsFromBoardByTargetOrRandom, Result.bind_eq_ok_iff,
        Result.pure_eq_ok_iff, Prod.mk.injEq] at matched
      obtain ⟨_, matched, rfl, _⟩ := matched
      exact within_getMatchedEmoIndexsFromBoard acting matched
  | random typAndTriple count =>
      cases matched
      exact fun index member => within_otherEmos _ index (mem_of_mem_shuffled member)

/-! ## Changing emos -/

/-- A loop of in-place changes over indexes of emos succeeds if every single
change does. -/
theorem succeeds_foldlM_update {f : St env → Nat → Result (St env)} {added : Option Ability.Battle}
    {playerIndex : PlayerIndex} {state : St env} {indexes : List Nat}
    (within : Within (state.getBoard playerIndex) indexes)
    (update : ∀ {state emoIndex after}, f state emoIndex = .ok after →
      Update env added state after)
    (succeeds : ∀ {state : St env} {emoIndex}, emoIndex < (state.getBoard playerIndex).length →
      Succeeds (f state emoIndex)) : Succeeds (indexes.foldlM f state) := by
  refine succeeds_foldlM (I := fun middle : St env =>
    (middle.getBoard playerIndex).length = (state.getBoard playerIndex).length) rfl ?_
  intro index member middle same
  obtain ⟨after, performed⟩ := succeeds (same ▸ within index member)
  exact ⟨after, performed,
    ((update performed).boards playerIndex).length_eq.symm.trans same⟩

theorem increaseEmoStats_succeeds {playerIndex : PlayerIndex} {attack health emoIndex : Nat}
    {state : St env} (present : emoIndex < (state.getBoard playerIndex).length) :
    Succeeds (increaseEmoStats env playerIndex attack health state emoIndex) := by
  unfold increaseEmoStats
  split
  · exact succeeds_pure _
  · rw [succeeds_bind_iff]
    exact ⟨_, BattleBoards.getEmoMut_eq_ok_iff.mpr (List.getElem?_eq_getElem present),
      succeeds_pure _⟩

theorem decreaseEmoStats_succeeds {playerIndex : PlayerIndex} {attack health emoIndex : Nat}
    {state : St env} (present : emoIndex < (state.getBoard playerIndex).length) :
    Succeeds (decreaseEmoStats env playerIndex attack health state emoIndex) := by
  unfold decreaseEmoStats
  split
  · exact succeeds_pure _
  · rw [succeeds_bind_iff]
    exact ⟨_, BattleBoards.getEmoMut_eq_ok_iff.mpr (List.getElem?_eq_getElem present),
      succeeds_pure _⟩

theorem addAbilityToEmoAt_succeeds {playerIndex : PlayerIndex} {ability : Ability.Battle}
    {emoIndex : Nat} {state : St env} (present : emoIndex < (state.getBoard playerIndex).length) :
    Succeeds (addAbilityToEmoAt env playerIndex ability state emoIndex) := by
  unfold addAbilityToEmoAt
  rw [succeeds_bind_iff]
  refine ⟨_, BattleBoards.getEmoMut_eq_ok_iff.mpr (List.getElem?_eq_getElem present), ?_⟩
  split <;> exact succeeds_pure _

section Acting

variable {playerIndex : PlayerIndex} {actionEmoIndex : Nat}
variable {isActionEmoRetired isTripleAction : Bool} {state : St env}
variable (acting : isActionEmoRetired = false →
  actionEmoIndex < (state.getBoard playerIndex).length)

include acting

theorem increaseStats_succeeds_iff {targetOrRandom : TargetOrRandom} {attack health : Nat} :
    Succeeds (increaseStats env playerIndex actionEmoIndex isActionEmoRetired isTripleAction
      targetOrRandom attack health state) ↔
      TargetInRange (state.getBoard playerIndex) actionEmoIndex targetOrRandom := by
  unfold increaseStats
  rw [succeeds_bind_iff, ← @matched_succeeds_iff env _ _ _ isActionEmoRetired state.rng]
  refine exists_congr fun ⟨indexes, rng⟩ => and_iff_left_of_imp fun matched => ?_
  exact @succeeds_foldlM_update env _ none _ _ _ (within_matched acting matched)
    (fun performed => (increaseEmoStats_writes performed).update) increaseEmoStats_succeeds

theorem decreaseStats_succeeds_iff {targetOrRandom : TargetOrRandom} {attack health : Nat} :
    Succeeds (decreaseStats env playerIndex actionEmoIndex isActionEmoRetired isTripleAction
      targetOrRandom attack health state) ↔
      TargetInRange (state.getBoard playerIndex) actionEmoIndex targetOrRandom := by
  unfold decreaseStats
  rw [succeeds_bind_iff, ← @matched_succeeds_iff env _ _ _ isActionEmoRetired state.rng]
  refine exists_congr fun ⟨indexes, rng⟩ => and_iff_left_of_imp fun matched => ?_
  exact @succeeds_foldlM_update env _ none _ _ _ (within_matched acting matched)
    (fun performed => (decreaseEmoStats_writes performed).update) decreaseEmoStats_succeeds

theorem addBattleAbility_succeeds_iff {targetOrRandom : TargetOrRandom}
    {ability : Ability.Battle} :
    Succeeds (addBattleAbility env playerIndex actionEmoIndex isActionEmoRetired isTripleAction
      targetOrRandom ability state) ↔
      TargetInRange (state.getBoard playerIndex) actionEmoIndex targetOrRandom := by
  cases targetOrRandom with
  | target target =>
      unfold addBattleAbility
      rw [succeeds_bind_iff,
        ← @getMatchedEmoIndexsFromBoard_succeeds_iff _ _ _ isActionEmoRetired]
      refine exists_congr fun indexes => and_iff_left_of_imp fun matched => ?_
      exact succeeds_foldlM_update (within_getMatchedEmoIndexsFromBoard acting matched)
        (fun performed => (addAbilityToEmoAt_writes performed).update) addAbilityToEmoAt_succeeds
  | random typAndTriple count =>
      refine iff_of_true ?_ trivial
      refine @succeeds_foldlM_update env _ _ playerIndex _ _ ?_
        (fun performed => (addAbilityToEmoAt_writes performed).update)
        addAbilityToEmoAt_succeeds
      exact fun index member => within_otherEmos _ index (mem_of_mem_shuffled member)

end Acting

/-! ## Damage and retirement -/

theorem getAbilities_succeeds_iff {emo : BattleEmo} :
    Succeeds emo.getAbilities ↔ Countable emo :=
  BattleEmo.getAbilities_isOk_iff

theorem callShieldRemovedAbility_succeeds {playerIndex : PlayerIndex} {emoIndex : Nat}
    {state : St env} (present : emoIndex < (state.getBoard playerIndex).length) :
    Succeeds (callShieldRemovedAbility env playerIndex emoIndex state) := by
  unfold callShieldRemovedAbility
  rw [succeeds_bind_iff]
  exact ⟨_, BattleBoards.getEmo_eq_ok_iff.mpr (List.getElem?_eq_getElem present),
    succeeds_pure _⟩

/-- The index that `get_abilities` gives for a shield is that of a shield. -/
theorem removeShield_succeeds {playerIndex : PlayerIndex} {emoIndex abilityIndex : Nat}
    {state : St env} {emo : BattleEmo} {battle : Ability.Battle}
    (found : (state.getBoard playerIndex)[emoIndex]? = some emo)
    (listed : emo.attributes.abilities[abilityIndex]? = some (.battle battle)) :
    Succeeds (removeShield env playerIndex emoIndex abilityIndex state) := by
  simp only [removeShield, succeeds_bind_iff, BattleBoards.getEmoMut_eq_ok_iff, okOr_eq_ok_iff]
  refine ⟨emo, found, .battle battle, listed, battle, rfl, callShieldRemovedAbility_succeeds ?_⟩
  have bound := (List.getElem?_eq_some_iff.mp found).1
  simpa [BattleState.getBoard, BattleBoards.setEmo] using bound

theorem retireEmo_succeeds {playerIndex : PlayerIndex} {emoIndex : Nat} {state : St env}
    {emo : BattleEmo} (found : (state.getBoard playerIndex)[emoIndex]? = some emo)
    (countable : Countable emo) : Succeeds (retireEmo env playerIndex emoIndex state) := by
  obtain ⟨abilities, indexed⟩ := getAbilities_succeeds_iff.mpr countable
  simp only [retireEmo, callEmoRetirePlayerAbilities, succeeds_bind_iff, okOr_eq_ok_iff,
    Result.bind_eq_ok_iff, Result.pure_eq_ok_iff]
  exact ⟨emo, found, _, ⟨abilities, indexed, rfl⟩, succeeds_pure _⟩

theorem removeShieldIfExist_succeeds_iff {playerIndex : PlayerIndex} {emoIndex : Nat}
    {state : St env} :
    Succeeds (removeShieldIfExist env playerIndex emoIndex state) ↔
      ∃ emo, (state.getBoard playerIndex)[emoIndex]? = some emo ∧ Countable emo := by
  simp only [removeShieldIfExist, succeeds_bind_iff, BattleBoards.getEmo_eq_ok_iff]
  refine exists_congr fun emo => and_congr_right fun found => ?_
  rw [← getAbilities_succeeds_iff]
  refine exists_congr fun abilities => and_iff_left_of_imp fun indexed => ?_
  split
  · rename_i shield
    have listed := BattleEmo.mem_getAbilities indexed (List.mem_of_find?_eq_some shield)
    rw [succeeds_map_iff]
    exact removeShield_succeeds found listed
  · exact succeeds_pure _

/-- Damage can fail only where the search for a shield does. -/
theorem damageEmo_succeeds_iff {damage : Nat} {playerIndex : PlayerIndex} {emoIndex : Nat}
    {state : St env} :
    Succeeds (damageEmo env damage playerIndex emoIndex state) ↔
      ∃ emo, (state.getBoard playerIndex)[emoIndex]? = some emo ∧ Countable emo := by
  rw [← removeShieldIfExist_succeeds_iff, damageEmo, succeeds_bind_iff]
  refine exists_congr fun shielded => and_iff_left_of_imp fun removed => ?_
  obtain ⟨emo, found, countable⟩ := removeShieldIfExist_succeeds_iff.mp ⟨shielded, removed⟩
  cases shielded with
  | some result => exact succeeds_pure _
  | none =>
      dsimp only
      split
      · exact succeeds_pure _
      · rw [succeeds_bind_iff]
        refine ⟨emo, BattleBoards.getEmoMut_eq_ok_iff.mpr found, ?_⟩
        split
        · rw [succeeds_bind_iff]
          let logged := state.addLog env (.damage playerIndex emoIndex damage
            (emo.attributes.health - damage))
          have standing : (logged.getBoard playerIndex)[emoIndex]? = some emo := by
            simpa [logged] using found
          obtain ⟨result, retired⟩ := retireEmo_succeeds standing countable
          exact ⟨result, retired, succeeds_pure _⟩
        · exact succeeds_pure _

/-! ## Abilities -/

theorem getActionEmo_eq_ok_iff {playerIndex : PlayerIndex} {emoIndex : Nat}
    {retiredEmoOpt : Option BattleEmo} {state : St env} {emo : BattleEmo} :
    getActionEmo env playerIndex emoIndex retiredEmoOpt state = .ok emo ↔
      (retiredEmoOpt <|> (state.getBoard playerIndex)[emoIndex]?) = some emo := by
  cases retiredEmoOpt with
  | some retiredEmo => simp [getActionEmo]
  | none => simp [getActionEmo]

theorem exists_getActionEmo_iff {playerIndex : PlayerIndex} {emoIndex : Nat}
    {retiredEmoOpt : Option BattleEmo} {state : St env} :
    (∃ emo, getActionEmo env playerIndex emoIndex retiredEmoOpt state = .ok emo) ↔
      (retiredEmoOpt.isSome = false → emoIndex < (state.getBoard playerIndex).length) := by
  simp only [getActionEmo_eq_ok_iff]
  cases retiredEmoOpt with
  | some retiredEmo => simp
  | none => simp [← Option.isSome_iff_exists]

/-- What an action needs of its index besides the acting emo. -/
def ActionFits (board : List BattleEmo) (action : NormalAction) (actionEmoIndex : Nat)
    (isActionEmoRetired : Bool) : Prop :=
  match action with
  | .setEmo .ally _ =>
      SetInRange board (if isActionEmoRetired then actionEmoIndex else actionEmoIndex + 1)
  | .increaseStats targetOrRandom _ _ | .decreaseStats targetOrRandom _ _
  | .increaseStatsByEmoCount _ targetOrRandom _ _ _ | .addBattleAbility targetOrRandom _ =>
      TargetInRange board actionEmoIndex targetOrRandom
  | _ => True

theorem targetInRange_of_lt {board : List BattleEmo} {emoIndex : Nat}
    (present : emoIndex < board.length) (targetOrRandom : TargetOrRandom) :
    TargetInRange board emoIndex targetOrRandom := by
  unfold TargetInRange
  split
  · exact Nat.le_of_lt present
  · trivial

/-- An acting emo that still stands on the board can perform every action. -/
theorem actionInRange_iff {board : List BattleEmo} {action : NormalAction}
    {actionEmoIndex : Nat} {isActionEmoRetired : Bool} :
    ActionInRange board action actionEmoIndex isActionEmoRetired ↔
      (isActionEmoRetired = false → actionEmoIndex < board.length) ∧
        ActionFits board action actionEmoIndex isActionEmoRetired := by
  cases isActionEmoRetired with
  | true =>
      unfold ActionInRange ActionFits
      cases action with
      | setEmo side baseId => cases side <;> simp
      | _ => simp
  | false =>
      refine ⟨fun present => ⟨fun _ => present, ?_⟩, fun both => both.1 rfl⟩
      cases action with
      | setEmo side baseId =>
          cases side with
          | ally => exact fun _ => Nat.succ_le_of_lt present
          | rival => trivial
      | increaseStats targetOrRandom => exact targetInRange_of_lt present targetOrRandom
      | decreaseStats targetOrRandom => exact targetInRange_of_lt present targetOrRandom
      | increaseStatsByEmoCount _ targetOrRandom =>
          exact targetInRange_of_lt present targetOrRandom
      | addBattleAbility targetOrRandom => exact targetInRange_of_lt present targetOrRandom
      | _ => trivial

theorem succeeds_calls_iff {first : Result (St env)} :
    Succeeds (do
      let state ← first
      return (([] : List Task), state)) ↔ Succeeds first := by
  simp only [succeeds_bind_iff, succeeds_pure, and_true]
  rfl

theorem callAbilityNormalAction_succeeds_iff {playerIndex : PlayerIndex} {action : NormalAction}
    {actionEmoIndex : Nat} {retiredActionEmoOpt : Option BattleEmo} {isTripleAction : Bool}
    {state : St env} (legal : LegalNormalAction env.emoBases action) :
    Succeeds (callAbilityNormalAction env playerIndex action actionEmoIndex retiredActionEmoOpt
      isTripleAction state) ↔
      ActionInRange (state.getBoard playerIndex) action actionEmoIndex
        retiredActionEmoOpt.isSome := by
  rw [actionInRange_iff, ← exists_getActionEmo_iff, ← exists_and_right]
  unfold callAbilityNormalAction
  rw [succeeds_bind_iff]
  refine exists_congr fun emo => and_congr_right fun resolved => ?_
  have acting := exists_getActionEmo_iff.mp ⟨emo, resolved⟩
  cases action with
  | setEmo side baseId =>
      refine (setEmo_succeeds_iff (by simpa [LegalNormalAction] using legal)).trans ?_
      cases side <;> simp [ActionFits]
  | setEmosByAttackDiv side baseId divisor =>
      have positive : divisor ≠ 0 := by
        simp only [LegalNormalAction] at legal
        exact legal.2
      exact iff_of_true (succeeds_bind_iff.mpr
        ⟨(), ensure_eq_ok_iff.mpr positive, succeeds_pure _⟩) trivial
  | increaseStats targetOrRandom attack health =>
      exact succeeds_calls_iff.trans (increaseStats_succeeds_iff acting)
  | decreaseStats targetOrRandom attack health =>
      exact succeeds_calls_iff.trans (decreaseStats_succeeds_iff acting)
  | increaseStatsByEmoCount side targetOrRandom countCondition attack health =>
      exact succeeds_calls_iff.trans (increaseStats_succeeds_iff acting)
  | addBattleAbility targetOrRandom ability =>
      exact succeeds_calls_iff.trans (addBattleAbility_succeeds_iff acting)
  | damageAll side damage => exact iff_of_true (succeeds_pure _) trivial

theorem callAbilityNormalActionAsOneself_succeeds_iff {playerIndex : PlayerIndex}
    {action : NormalAction} {actionEmoIndex : Nat} {retiredActionEmoOpt : Option BattleEmo}
    {state : St env} (legal : LegalNormalAction env.emoBases action) :
    Succeeds (callAbilityNormalActionAsOneself env playerIndex action actionEmoIndex
      retiredActionEmoOpt state) ↔
      ActionInRange (state.getBoard playerIndex) action actionEmoIndex
        retiredActionEmoOpt.isSome := by
  unfold callAbilityNormalActionAsOneself
  rw [succeeds_bind_iff]
  simp only [callAbilityNormalAction_succeeds_iff legal]
  rw [exists_and_right]
  exact and_iff_right_of_imp fun fits => exists_getActionEmo_iff.mpr (actionInRange_iff.mp fits).1

theorem callAbilityGeneralAsAllyAction_succeeds_iff {playerIndex : PlayerIndex}
    {action : GeneralAsAllyAction} {allyEmoIndex oneselfEmoIndex ownerId : Nat}
    {retiredAllyEmoOpt : Option BattleEmo} {state : St env}
    (legal : LegalAsAllyAction env.emoBases action) :
    Succeeds (callAbilityGeneralAsAllyAction env playerIndex action allyEmoIndex
      retiredAllyEmoOpt oneselfEmoIndex state) ↔
      InRange (.callAbilityGeneralAsAllyAction playerIndex action allyEmoIndex retiredAllyEmoOpt
        oneselfEmoIndex ownerId) state.boards := by
  have oneself : (∃ emo, state.boards.getEmo playerIndex oneselfEmoIndex = .ok emo) ↔
      oneselfEmoIndex < (state.boards.getBoard playerIndex).length := by
    simp [← Option.isSome_iff_exists]
  unfold InRange
  cases action with
  | oneselfTripleNormal normalAction =>
      have legal : LegalNormalAction env.emoBases normalAction := by
        simpa [LegalAsAllyAction] using legal
      unfold callAbilityGeneralAsAllyAction
      rw [succeeds_bind_iff]
      simp only [callAbilityNormalAction_succeeds_iff legal]
      rw [exists_and_right, oneself]
  | custom asAllyAction =>
      cases asAllyAction
      unfold callAbilityGeneralAsAllyAction callAbilityAsAllyAction
      simp only [succeeds_bind_iff, getActionEmo_eq_ok_iff]
      rw [← oneself]
      constructor
      · rintro ⟨emo, found, oneselfEmo, standing, abilities, indexed, _⟩
        exact ⟨⟨oneselfEmo, standing⟩, emo, found, getAbilities_succeeds_iff.mp ⟨_, indexed⟩⟩
      · rintro ⟨⟨oneselfEmo, standing⟩, emo, found, countable⟩
        obtain ⟨abilities, indexed⟩ := getAbilities_succeeds_iff.mpr countable
        exact ⟨emo, found, oneselfEmo, standing, abilities, indexed, succeeds_pure _⟩

theorem callShieldRemovedAbilityOf_succeeds_iff {playerIndex : PlayerIndex}
    {action : NormalAction} {emoIndex : Nat} {excludesSameBase : Bool}
    {shieldRemovedEmoBaseId : Nat} {state : St env}
    (legal : LegalNormalAction env.emoBases action) :
    Succeeds (callShieldRemovedAbilityOf env playerIndex action emoIndex excludesSameBase
      shieldRemovedEmoBaseId state) ↔ emoIndex < (state.getBoard playerIndex).length := by
  have acts := @callAbilityNormalActionAsOneself_succeeds_iff env playerIndex action emoIndex none
    state legal
  have range : ActionInRange (state.getBoard playerIndex) action emoIndex
      (none : Option BattleEmo).isSome ↔ emoIndex < (state.getBoard playerIndex).length :=
    Iff.rfl
  rw [range] at acts
  unfold callShieldRemovedAbilityOf
  split
  · rw [succeeds_bind_iff]
    constructor
    · rintro ⟨emo, found, _⟩
      exact (List.getElem?_eq_some_iff.mp (BattleBoards.getEmo_eq_ok_iff.mp found)).1
    · intro present
      refine ⟨_, BattleBoards.getEmo_eq_ok_iff.mpr (List.getElem?_eq_getElem present), ?_⟩
      split
      · exact succeeds_pure _
      · exact acts.mpr present
  · exact acts

/-! ## Attacks -/

theorem getAttackEmoIndexFrom_eq_or_mem {index minAttackAndSurvivedCount : Nat}
    {emos : List (BattleEmo × Nat)} :
    getAttackEmoIndexFrom index minAttackAndSurvivedCount emos = index ∨
      getAttackEmoIndexFrom index minAttackAndSurvivedCount emos ∈ emos.map Prod.snd := by
  induction emos generalizing index minAttackAndSurvivedCount with
  | nil => exact .inl rfl
  | cons entry rest ih =>
      obtain ⟨emo, i⟩ := entry
      unfold getAttackEmoIndexFrom
      split
      · rcases @ih i emo.attackAndSurvivedCount with same | member
        · exact .inr (by rw [same]; exact List.mem_cons_self)
        · exact .inr (List.mem_cons_of_mem _ member)
      · rcases @ih index minAttackAndSurvivedCount with same | member
        · exact .inl same
        · exact .inr (List.mem_cons_of_mem _ member)

theorem mem_getLowestAttackEmoIndexesFrom {indexes : List Nat} {lowestAttack index : Nat}
    {emos : List (BattleEmo × Nat)}
    (member : index ∈ getLowestAttackEmoIndexesFrom indexes lowestAttack emos) :
    index ∈ indexes ∨ index ∈ emos.map Prod.snd := by
  induction emos generalizing indexes lowestAttack with
  | nil => exact .inl member
  | cons entry rest ih =>
      obtain ⟨emo, i⟩ := entry
      unfold getLowestAttackEmoIndexesFrom at member
      rcases ih member with kept | later
      · grind
      · exact .inr (List.mem_cons_of_mem _ later)

theorem getLowestAttackEmoIndexesFrom_ne_nil {indexes : List Nat} {lowestAttack : Nat}
    {emos : List (BattleEmo × Nat)} (nonempty : indexes ≠ []) :
    getLowestAttackEmoIndexesFrom indexes lowestAttack emos ≠ [] := by
  induction emos generalizing indexes lowestAttack with
  | nil => exact nonempty
  | cons entry rest ih =>
      obtain ⟨emo, i⟩ := entry
      unfold getLowestAttackEmoIndexesFrom
      refine ih ?_
      by_cases lower : emo.attributes.attack < lowestAttack
      · simp [lower]
      · simp only [if_neg lower]
        split <;> simp [nonempty]

/-- The indexes of the emos right of the first. -/
theorem lt_of_mem_drop_zipIdx {emos : List BattleEmo} {index : Nat}
    (member : index ∈ (emos.zipIdx.drop 1).map Prod.snd) : index < emos.length := by
  obtain ⟨⟨emo, other⟩, listed, rfl⟩ := List.mem_map.mp member
  have found := List.mem_zipIdx_iff_getElem?.mp (List.mem_of_mem_drop listed)
  exact (List.getElem?_eq_some_iff.mp found).1

theorem getAttackEmoIndex_lt {emos : List BattleEmo} {index : Nat}
    (chosen : getAttackEmoIndex emos = .ok index) : index < emos.length := by
  simp only [getAttackEmoIndex, Result.bind_eq_ok_iff, okOr_eq_ok_iff,
    Result.pure_eq_ok_iff] at chosen
  obtain ⟨first, found, rfl⟩ := chosen
  rcases @getAttackEmoIndexFrom_eq_or_mem 0 first.attackAndSurvivedCount (emos.zipIdx.drop 1) with
    same | member
  · rw [same]
    exact (List.getElem?_eq_some_iff.mp found).1
  · exact lt_of_mem_drop_zipIdx member

theorem getDefenseEmoIndex_succeeds {emos : List BattleEmo} {isLowestAttack : Bool}
    {rng : env.sampler.Rng} (nonempty : emos ≠ []) :
    Succeeds (getDefenseEmoIndex env emos isLowestAttack rng) := by
  have positive := List.length_pos_of_ne_nil nonempty
  unfold getDefenseEmoIndex
  split
  · simp only [getLowestAttackEmoIndex, succeeds_bind_iff, okOr_eq_ok_iff]
    have some := @getLowestAttackEmoIndexesFrom_ne_nil [0] emos[0].attributes.attack
      (emos.zipIdx.drop 1) (by simp)
    obtain ⟨index, chosen⟩ := @Sampler.chooseFrom_isSome env.sampler _ rng _ some
    exact ⟨emos[0], List.getElem?_eq_getElem positive, index, chosen, succeeds_pure _⟩
  · split
    · exact succeeds_pure _
    · rw [succeeds_bind_iff]
      exact ⟨(), ensure_eq_ok_iff.mpr positive, succeeds_pure _⟩

theorem getDefenseEmoIndex_lt {emos : List BattleEmo} {isLowestAttack : Bool}
    {rng rng' : env.sampler.Rng} {index : Nat}
    (chosen : getDefenseEmoIndex env emos isLowestAttack rng = .ok (index, rng')) :
    index < emos.length := by
  unfold getDefenseEmoIndex at chosen
  split at chosen
  · simp only [getLowestAttackEmoIndex, Result.bind_eq_ok_iff, okOr_eq_ok_iff,
      Result.pure_eq_ok_iff, Prod.mk.injEq] at chosen
    obtain ⟨first, found, other, chosen, rfl, _⟩ := chosen
    rcases mem_getLowestAttackEmoIndexesFrom (Sampler.chooseFrom_mem chosen) with zero | later
    · rw [List.mem_singleton.mp zero]
      exact (List.getElem?_eq_some_iff.mp found).1
    · exact lt_of_mem_drop_zipIdx later
  · split at chosen
    · rename_i attractive
      cases chosen
      have member := Sampler.chooseFrom_mem (congrArg Prod.fst attractive)
      obtain ⟨⟨emo, other⟩, listed, rfl⟩ := List.mem_map.mp member
      have found := List.mem_zipIdx_iff_getElem?.mp (List.mem_of_mem_filter listed)
      exact (List.getElem?_eq_some_iff.mp found).1
    · simp only [Result.bind_eq_ok_iff, ensure_eq_ok_iff, Result.pure_eq_ok_iff] at chosen
      obtain ⟨_, positive, same⟩ := chosen
      have bound := env.sampler.genRange_lt ‹_› emos.length positive
      rw [same] at bound
      exact bound

theorem attack_succeeds_iff {attackPlayerIndex : PlayerIndex} {state : St env}
    (attackers : state.getBoard attackPlayerIndex ≠ [])
    (defenders : state.getBoard (switchPlayerIndex attackPlayerIndex) ≠ []) :
    Succeeds (attack env attackPlayerIndex state) ↔
      InRange (.attack attackPlayerIndex) state.boards := by
  have positive := List.length_pos_of_ne_nil attackers
  obtain ⟨attackEmoIndex, chosen⟩ : Succeeds (getAttackEmoIndex
      (state.getBoard attackPlayerIndex)) := by
    rw [getAttackEmoIndex, List.getElem?_eq_getElem positive]
    exact succeeds_pure _
  have found := List.getElem?_eq_getElem (getAttackEmoIndex_lt chosen)
  unfold InRange
  constructor
  · simp only [attack, getAttackAndDefenseEmoIndexes, succeeds_bind_iff, Result.bind_eq_ok_iff,
      BattleBoards.getEmo_eq_ok_iff]
    rintro ⟨_, ⟨index, same, emo, standing, abilities, indexed, _⟩, _⟩ other emo' same' standing'
    rw [same] at same'
    cases same'
    rw [standing] at standing'
    cases standing'
    exact getAbilities_succeeds_iff.mp ⟨abilities, indexed⟩
  · intro countable
    obtain ⟨abilities, indexed⟩ := getAbilities_succeeds_iff.mpr (countable _ _ chosen found)
    obtain ⟨⟨index, rng⟩, defended⟩ := @getDefenseEmoIndex_succeeds env _
      (abilities.any fun entry => entry.2 = .special .attackLowestAttack) state.rng defenders
    simp only [attack, getAttackAndDefenseEmoIndexes, succeeds_bind_iff, Result.bind_eq_ok_iff,
      BattleBoards.getEmo_eq_ok_iff]
    exact ⟨_, ⟨_, chosen, _, found, abilities, indexed, _, defended, rfl⟩, succeeds_pure _⟩

/-- The attack is made between emos that stand on the boards. -/
theorem attack_calls {attackPlayerIndex : PlayerIndex} {state after : St env}
    {calls : List Task}
    (performed : attack env attackPlayerIndex state = .ok (calls, after)) :
    ∃ attackEmoIndex defenseEmoIndex,
      calls = [.attackDamage attackPlayerIndex attackEmoIndex defenseEmoIndex] ∧
      after.boards = state.boards ∧
      attackEmoIndex < (state.getBoard attackPlayerIndex).length ∧
      defenseEmoIndex < (state.getBoard (switchPlayerIndex attackPlayerIndex)).length := by
  obtain ⟨attackEmoIndex, defenseEmoIndex, _, rng, chosen, defended, rfl, rfl⟩ :=
    attack_cases performed
  exact ⟨attackEmoIndex, defenseEmoIndex, rfl, by simp, getAttackEmoIndex_lt chosen,
    getDefenseEmoIndex_lt defended⟩

theorem countAttackAndSurvived_succeeds_iff {attackPlayerIndex : PlayerIndex}
    {attackEmoIndex attackEmoId : Nat} {state : St env} :
    Succeeds (countAttackAndSurvived env attackPlayerIndex attackEmoIndex state) ↔
      InRange (.countAttackAndSurvived attackPlayerIndex attackEmoIndex attackEmoId)
        state.boards := by
  simp only [countAttackAndSurvived, InRange, succeeds_bind_iff,
    BattleBoards.getEmoMut_eq_ok_iff, addU8_eq_ok_iff, succeeds_pure, and_true]
  refine exists_congr fun emo => and_congr_right fun _ => ?_
  constructor
  · rintro ⟨_, bound, _⟩
    exact bound
  · exact fun bound => ⟨_, bound, rfl⟩

theorem attackDamage_succeeds_iff {attackPlayerIndex : PlayerIndex}
    {attackEmoIndex defenseEmoIndex : Nat} {state : St env}
    (attacks : attackEmoIndex < (state.getBoard attackPlayerIndex).length)
    (defends : defenseEmoIndex < (state.getBoard (switchPlayerIndex attackPlayerIndex)).length) :
    Succeeds (attackDamage env attackPlayerIndex attackEmoIndex defenseEmoIndex state) ↔
      InRange (.attackDamage attackPlayerIndex attackEmoIndex defenseEmoIndex) state.boards := by
  have attacker := List.getElem?_eq_getElem attacks
  have defender := List.getElem?_eq_getElem defends
  simp only [attackDamage, InRange, succeeds_bind_iff, BattleBoards.getEmo_eq_ok_iff]
  constructor
  · rintro ⟨_, _, _, _, ⟨survived, calls, after⟩, damaged, _⟩ emo found
    obtain ⟨other, standing, countable⟩ := damageEmo_succeeds_iff.mp ⟨_, damaged⟩
    rw [standing] at found
    cases found
    exact countable
  · intro countable
    obtain ⟨_, damaged⟩ := damageEmo_succeeds_iff.mpr ⟨_, defender, countable _ defender⟩
    exact ⟨_, attacker, _, defender, _, damaged, succeeds_pure _⟩

theorem attackDamageCounter_succeeds_iff {attackPlayerIndex : PlayerIndex}
    {attackEmoIndex defenseEmoAttack attackEmoId : Nat} {state : St env} :
    Succeeds (attackDamageCounter env attackPlayerIndex attackEmoIndex defenseEmoAttack
      attackEmoId state) ↔
      InRange (.attackDamageCounter attackPlayerIndex attackEmoIndex defenseEmoAttack
        attackEmoId) state.boards := by
  unfold attackDamageCounter InRange
  by_cases present : attackEmoIndex < (state.boards.getBoard attackPlayerIndex).length
  · rw [if_pos (BattleBoards.hasEmoAtIndex_iff.mpr present), succeeds_bind_iff]
    have found := List.getElem?_eq_getElem present
    constructor
    · rintro ⟨result, damaged, _⟩ emo standing
      obtain ⟨other, same, countable⟩ := damageEmo_succeeds_iff.mp ⟨_, damaged⟩
      rw [same] at standing
      cases standing
      exact countable
    · intro countable
      obtain ⟨result, damaged⟩ := damageEmo_succeeds_iff.mpr ⟨_, found, countable _ found⟩
      refine ⟨result, damaged, ?_⟩
      dsimp only
      split <;> exact succeeds_pure _
  · rw [if_neg (BattleBoards.hasEmoAtIndex_iff.not.mpr present)]
    refine iff_of_true (succeeds_pure _) fun emo found => ?_
    exact absurd (List.getElem?_eq_some_iff.mp found).1 present

theorem damageAllEmosOf_succeeds_iff {playerIndex : PlayerIndex} {damage emoId : Nat}
    {state : St env} :
    Succeeds (perform env (.damageAllEmosOf playerIndex damage emoId) state) ↔
      InRange (.damageAllEmosOf playerIndex damage emoId) state.boards := by
  unfold perform InRange
  dsimp only
  cases search : state.boards.findEmoIndexById playerIndex emoId with
  | none => exact iff_of_true (succeeds_ok _) fun _ _ same => nomatch same
  | some emoIndex =>
      rw [succeeds_map_iff, damageEmo_succeeds_iff]
      obtain ⟨present, _⟩ := List.findIdx?_eq_some_iff_getElem.mp search
      have found := List.getElem?_eq_getElem present
      constructor
      · rintro ⟨emo, standing, countable⟩ other emo' same standing'
        cases same
        rw [standing] at standing'
        cases standing'
        exact countable
      · exact fun countable => ⟨_, found, countable _ _ rfl found⟩

/-! ## The invariant of legal runs -/

/-- An attack starts between emos on the boards; below it is the cascade. -/
inductive Started : Config Task (St env) → Prop where
  | attack {attackPlayerIndex : PlayerIndex} {state : St env}
      (attackers : state.getBoard attackPlayerIndex ≠ [])
      (defenders : state.getBoard (switchPlayerIndex attackPlayerIndex) ≠ []) :
      Started ⟨[.attack attackPlayerIndex], state⟩
  | attackDamage {attackPlayerIndex : PlayerIndex} {attackEmoIndex defenseEmoIndex : Nat}
      {state : St env} (attacks : attackEmoIndex < (state.getBoard attackPlayerIndex).length)
      (defends : defenseEmoIndex <
        (state.getBoard (switchPlayerIndex attackPlayerIndex)).length) :
      Started ⟨[.attackDamage attackPlayerIndex attackEmoIndex defenseEmoIndex], state⟩
  | cascade {stack : List Task} {state : St env} (cascade : ∀ task ∈ stack, task.isCascade) :
      Started ⟨stack, state⟩

structure LegalConfig (config : Config Task (St env)) : Prop where
  tasks : ∀ task ∈ config.stack, LegalTask env.emoBases task
  boards : LegalBoards env.emoBases config.state.boards
  started : Started config

/-- On legal input a task succeeds exactly when its indexes are in range. -/
theorem perform_succeeds_iff {task : Task} {rest : List Task} {state : St env}
    (legal : LegalConfig ⟨task :: rest, state⟩) :
    Succeeds (perform env task state) ↔ InRange task state.boards := by
  have legalTask := legal.tasks task List.mem_cons_self
  cases legal.started with
  | attack attackers defenders => exact attack_succeeds_iff attackers defenders
  | attackDamage attacks defends => exact attackDamage_succeeds_iff attacks defends
  | cascade cascade =>
      have cascade := cascade task List.mem_cons_self
      cases task with
      | callPreAbilitiesOf => exact iff_of_true (succeeds_ok _) trivial
      | attack | attackDamage | marchBegin | marchLoop | marchNext => cases cascade
      | attackDamageCounter => exact attackDamageCounter_succeeds_iff
      | countAttackAndSurvived => exact countAttackAndSurvived_succeeds_iff
      | callAbilityNormalActionAsOneself =>
          exact callAbilityNormalActionAsOneself_succeeds_iff (legalTask.action _ rfl)
      | callAbilityGeneralAsAllyAction playerIndex action =>
          refine callAbilityGeneralAsAllyAction_succeeds_iff ?_
          cases action with
          | oneselfTripleNormal action => simpa [LegalAsAllyAction] using legalTask.action _ rfl
          | custom => simp [LegalAsAllyAction]
      | callShieldRemovedAbilityOf =>
          exact callShieldRemovedAbilityOf_succeeds_iff (legalTask.action _ rfl)
      | callEmoRetireBoardAbilities => exact iff_of_true (succeeds_ok _) trivial
      | callEmoRetireRivalAbilities => exact iff_of_true (succeeds_ok _) trivial
      | setEmo => exact setEmo_succeeds_iff (legalTask.setEmo _ _ _ _ _ _ rfl)
      | damageAllEmosOf => exact damageAllEmosOf_succeeds_iff

/-! ## Legality is preserved -/

theorem LegalTask.added {task : Task} (legal : LegalTask env.emoBases task)
    {ability : Ability.Battle} (added : task.action?.bind addedAbility? = some ability) :
    LegalBattle env.emoBases ability := by
  obtain ⟨action, acts, adds⟩ := Option.bind_eq_some_iff.mp added
  have legal := legal.action action acts
  cases action with
  | addBattleAbility targetOrRandom other =>
      cases adds
      simpa [LegalNormalAction] using legal
  | _ => cases adds

theorem LegalBoards.update {added : Option Ability.Battle} {before after : BattleBoards}
    (legal : LegalBoards env.emoBases before)
    (new : ∀ ability, added = some ability → LegalBattle env.emoBases ability)
    (changed : BoardsChanged added before after) : LegalBoards env.emoBases after := by
  intro playerIndex emo member battle listed
  obtain ⟨emoIndex, found⟩ := List.mem_iff_getElem?.mp member
  obtain ⟨bound, rfl⟩ := List.getElem?_eq_some_iff.mp found
  have inside : emoIndex < (before.getBoard playerIndex).length :=
    bound.trans_eq (changed playerIndex).length_eq.symm
  have change : Changed added (before.getBoard playerIndex)[emoIndex]
      (after.getBoard playerIndex)[emoIndex] :=
    (changed playerIndex).get inside bound
  rcases change.abilities _ listed with kept | ⟨ability, added, same⟩
  · exact legal playerIndex _ (List.getElem_mem _) battle kept
  · cases same
    exact new _ added

theorem LegalBoards.effect {added : Option Ability.Battle} {before after : St env}
    (bases : LegalBases env.emoBases) (legal : LegalBoards env.emoBases before.boards)
    (new : ∀ ability, added = some ability → LegalBattle env.emoBases ability)
    (effect : Effect env added before after) : LegalBoards env.emoBases after.boards := by
  cases effect with
  | update update => exact legal.update new update.boards
  | noRoom boards _ => rwa [boards]
  | @insertion player position emo inserted =>
      intro other emo' member
      by_cases same : other = player
      · subst same
        rw [inserted.boards, BattleBoards.getBoard_setBoard] at member
        rcases (List.mem_insertIdx inserted.bound).mp member with rfl | old
        · obtain ⟨id, base, resolved, _, abilities⟩ := inserted.base
          rw [abilities]
          exact bases id base resolved
        · exact legal other emo' old
      · rw [inserted.boards, BattleBoards.getBoard_setBoard_of_ne same] at member
        exact legal other emo' member
  | @removal player position removed =>
      intro other emo member
      by_cases same : other = player
      · subst same
        rw [removed.boards, BattleBoards.getBoard_setBoard] at member
        exact legal other emo (List.mem_of_mem_eraseIdx member)
      · rw [removed.boards, BattleBoards.getBoard_setBoard_of_ne same] at member
        exact legal other emo member

theorem Known.legal {task : Task} {boards : BattleBoards} {emo : BattleEmo}
    (legalTask : LegalTask env.emoBases task) (legalBoards : LegalBoards env.emoBases boards)
    (known : Known task boards emo) : LegalAbilities env.emoBases emo.attributes.abilities := by
  rcases known with ⟨playerIndex, member⟩ | carried
  · exact legalBoards playerIndex emo member
  · exact legalTask.retiredEmo emo carried

theorem LegalBoards.entry {boards : BattleBoards} {playerIndex : PlayerIndex}
    {entry : BoardAbility} (legal : LegalBoards env.emoBases boards)
    (member : entry ∈ boards.getBoardAbilities playerIndex) :
    LegalBattle env.emoBases entry.ability := by
  obtain ⟨emo, found, _, listed⟩ := boards.mem_getBoardAbilities member
  exact legal playerIndex emo (List.mem_of_getElem? found) _ listed

theorem legalBattle_asOneself {trigger : Ability.Battle.GeneralAsOneselfTrigger}
    {action : NormalAction} :
    LegalBattle env.emoBases (.general (.asOneself trigger action)) ↔
      LegalNormalAction env.emoBases action := by
  rw [LegalBattle, LegalGeneral]

/-- A task that carries neither an action nor an emo is legal. -/
theorem legalTask_of_plain {task : Task} (action : task.action? = none)
    (retiredEmo : task.retiredEmo? = none)
    (setEmo : ∀ playerIndex emoIndex baseId isTriple attackAndSurvivedCount side,
      task ≠ .setEmo playerIndex emoIndex baseId isTriple attackAndSurvivedCount side) :
    LegalTask env.emoBases task where
  action _ acts := by
    rw [action] at acts
    cases acts
  retiredEmo _ carries := by
    rw [retiredEmo] at carries
    cases carries
  setEmo _ _ _ _ _ _ same := absurd same (setEmo _ _ _ _ _ _)

/-- Legal tasks make legal calls. -/
theorem Origin.legal {task call : Task} {before after : St env}
    (origin : Origin env task before after call) (legalTask : LegalTask env.emoBases task)
    (legalBefore : LegalBoards env.emoBases before.boards)
    (legalAfter : LegalBoards env.emoBases after.boards) : LegalTask env.emoBases call := by
  have none_legal : ∀ emo : BattleEmo, (none : Option BattleEmo) = some emo →
      LegalAbilities env.emoBases emo.attributes.abilities := fun _ same => nomatch same
  cases origin with
  | asOneself member listed =>
      have legal := legalAfter.entry member
      rw [listed, legalBattle_asOneself] at legal
      exact ⟨fun _ same => Option.some.inj same ▸ legal, none_legal,
        fun _ _ _ _ _ _ same => nomatch same⟩
  | @asAlly _ _ _ action _ _ member listed retired =>
      have legal := legalAfter.entry member
      rw [listed, LegalBattle, LegalGeneral] at legal
      refine ⟨fun other same => ?_, fun emo same => (retired emo same).legal legalTask legalBefore,
        fun _ _ _ _ _ _ same => nomatch same⟩
      cases action with
      | oneselfTripleNormal action =>
          cases same
          simpa [LegalAsAllyAction] using legal
      | custom => cases same
  | shieldRemoved member listed =>
      have legal := legalAfter.entry member
      rw [listed, legalBattle_asOneself] at legal
      exact ⟨fun _ same => Option.some.inj same ▸ legal, none_legal,
        fun _ _ _ _ _ _ same => nomatch same⟩
  | @retire _ emo ability action _ _ known listed retires retired =>
      have legal := known.legal legalTask legalBefore ability listed
      refine ⟨fun other same => ?_, fun emo same => (retired emo same).legal legalTask legalBefore,
        fun _ _ _ _ _ _ same => nomatch same⟩
      cases same
      unfold retireAction? at retires
      split at retires
      · cases retires
        exact legalBattle_asOneself.mp legal
      · cases retires
  | retireBoard known =>
      refine ⟨fun _ same => (nomatch same), fun emo same => ?_,
        fun _ _ _ _ _ _ same => nomatch same⟩
      cases same
      exact known.legal legalTask legalBefore
  | retireRival known =>
      refine ⟨fun _ same => (nomatch same), fun emo same => ?_,
        fun _ _ _ _ _ _ same => nomatch same⟩
      cases same
      exact known.legal legalTask legalBefore
  | setEmo acts =>
      have legal := legalTask.action _ acts
      rw [LegalNormalAction] at legal
      refine ⟨fun _ same => (nomatch same), none_legal, fun _ _ _ _ _ _ same => ?_⟩
      cases same
      exact legal.1
  | _ => exact legalTask_of_plain rfl rfl fun _ _ _ _ _ _ same => nomatch same

theorem LegalConfig.step (bases : LegalBases env.emoBases) {task : Task}
    {rest calls : List Task} {state after : St env} (legal : LegalConfig ⟨task :: rest, state⟩)
    (performed : perform env task state = .ok (calls, after)) :
    LegalConfig ⟨calls ++ rest, after⟩ := by
  obtain ⟨effect, origin⟩ := perform_performs performed
  have legalTask := legal.tasks task List.mem_cons_self
  have boards := legal.boards.effect bases (fun _ added => legalTask.added added) effect
  refine ⟨fun call member => ?_, boards, ?_⟩
  · rcases List.mem_append.mp member with new | old
    · exact (origin call new).legal legalTask legal.boards boards
    · exact legal.tasks call (List.mem_cons_of_mem _ old)
  · cases legal.started with
    | attack attackers defenders =>
        obtain ⟨attackEmoIndex, defenseEmoIndex, rfl, same, attacks, defends⟩ :=
          attack_calls performed
        refine .attackDamage ?_ ?_
        · rwa [BattleState.getBoard, same]
        · rwa [BattleState.getBoard, same]
    | attackDamage =>
        refine .cascade fun call member => ?_
        rw [List.append_nil] at member
        cases origin call member with
        | attackDamage attacks => cases attacks
        | marchLoop marches => rcases marches with marches | ⟨_, marches⟩ <;> cases marches
        | marchAttack marches => cases marches
        | marchNext marches => cases marches
        | _ => rfl
    | cascade cascade =>
        refine .cascade fun call member => ?_
        rcases List.mem_append.mp member with new | old
        · exact (origin call new).isCascade (cascade task List.mem_cons_self)
        · exact cascade call (List.mem_cons_of_mem _ old)

/-! ## The steps of a battle -/

/-- `call_pre_abilities` and `attack` return exactly when every index and
counter used on the way is in range at that moment. -/
theorem battleStep_returns_iff {calls : List Task} {state : St env}
    (bases : LegalBases env.emoBases) (boards : LegalBoards env.emoBases state.boards)
    (nonempty : ∀ playerIndex, state.getBoard playerIndex ≠ [])
    (step : (∃ first, calls = callPreAbilities first) ∨ ∃ player, calls = [.attack player])
    (terminates : Terminates (perform env) ⟨calls, state⟩) :
    (∃ after, Returns (perform env) ⟨calls, state⟩ after) ↔
      ∀ task rest reached, Reaches (perform env) ⟨calls, state⟩ ⟨task :: rest, reached⟩ →
        InRange task reached.boards := by
  have initial : LegalConfig ⟨calls, state⟩ := by
    rcases step with ⟨first, rfl⟩ | ⟨player, rfl⟩
    · refine ⟨fun task member => ?_, boards, .cascade fun task member => ?_⟩
      · rcases List.mem_pair.mp member with rfl | rfl
        all_goals exact legalTask_of_plain rfl rfl fun _ _ _ _ _ _ same => nomatch same
      · rcases List.mem_pair.mp member with rfl | rfl <;> rfl
    · refine ⟨fun task member => ?_, boards, .attack (nonempty _) (nonempty _)⟩
      rw [List.mem_singleton.mp member]
      exact legalTask_of_plain rfl rfl fun _ _ _ _ _ _ same => nomatch same
  rw [exists_returns_iff terminates]
  refine forall_congr' fun task => forall_congr' fun rest => forall_congr' fun reached => ?_
  refine forall_congr' fun onTheWay => ?_
  have legal := Reaches.invariant (LegalConfig.step bases) onTheWay initial
  exact perform_succeeds_iff legal

/-- An emo without abilities. -/
def plainBase : Base where
  id := 0
  typ := .human
  grade := 1
  attack := 1
  health := 1
  abilities := []

/-- An emo that takes its board with it when it retires and then sets an emo
where it stood. -/
def lastWordBase : Base where
  id := 1
  typ := .human
  grade := 1
  attack := 1
  health := 1
  abilities := [.battle (.special .attractive),
    .battle (.general (.asOneself .retire (.damageAll .ally 1))),
    .battle (.general (.asOneself .retire (.setEmo .ally 0)))]

def lastWordEnv : Env where
  emoBases id := if id = 0 then some plainBase else if id = 1 then some lastWordBase else none
  sampler := .first

/-- One emo attacks the right one of two. -/
def lastWordState : St lastWordEnv where
  boards := {
    board0 := [.newWithBase 0 plainBase false]
    board1 := [.newWithBase 1 plainBase false, .newWithBase 2 lastWordBase false] }
  logs := []
  rng := ()
  generatedIds := 3

theorem legalBases_lastWordEnv : LegalBases lastWordEnv.emoBases := by
  intro id base resolved battle listed
  simp only [lastWordEnv] at resolved
  split at resolved
  · cases resolved
    cases listed
  · split at resolved
    · cases resolved
      simp only [lastWordBase, List.mem_cons, Ability.battle.injEq, List.not_mem_nil,
        or_false] at listed
      rcases listed with rfl | rfl | rfl <;>
        simp [LegalBattle, LegalGeneral, LegalNormalAction, lastWordEnv]
    · cases resolved

theorem legalBoards_lastWordState : LegalBoards lastWordEnv.emoBases lastWordState.boards := by
  have ofBase : ∀ base ∈ [plainBase, lastWordBase],
      LegalAbilities lastWordEnv.emoBases base.abilities := by
    intro base member
    rcases List.mem_pair.mp member with rfl | rfl
    · exact legalBases_lastWordEnv 0 _ rfl
    · exact legalBases_lastWordEnv 1 _ rfl
  intro playerIndex emo member
  cases playerIndex with
  | zero =>
      rw [List.mem_singleton.mp member]
      exact ofBase plainBase (by simp)
  | one =>
      rcases List.mem_pair.mp member with rfl | rfl
      · exact ofBase plainBase (by simp)
      · exact ofBase lastWordBase (by simp)

end EmojiBattler.Mtc.Battle
