import EmojiBattler.Library.Positions
import EmojiBattler.Battle.Tasks

/-! # What a task does to the boards

Every task either changes emos in place, or inserts one new emo, or removes
one.  The invariants of the cascade are derived from this alone. -/

namespace EmojiBattler.Mtc.Battle

open EmojiBattler.Emo Sampling
open EmojiBattler.Emo.Ability (Side Target TargetOrRandom TypOptAndIsTripleOpt)
open EmojiBattler.Emo.Ability.Battle (NormalAction GeneralAsAllyAction AsAllyAction)

/-! ## Changes in place -/

/-- An emo that stays keeps its identity.  Its abilities were its own before,
or the added one. -/
structure Changed (added : Option Ability.Battle) (before after : BattleEmo) : Prop where
  id : after.id = before.id
  baseId : after.baseId = before.baseId
  typ : after.typ = before.typ
  isTriple : after.attributes.isTriple = before.attributes.isTriple
  abilities : ∀ ability ∈ after.attributes.abilities, ability ∈ before.attributes.abilities ∨
    ∃ battle, added = some battle ∧ ability = .battle battle

theorem Changed.refl (added : Option Ability.Battle) (emo : BattleEmo) : Changed added emo emo :=
  ⟨rfl, rfl, rfl, rfl, fun _ member => .inl member⟩

theorem Changed.trans {added : Option Ability.Battle} {before middle after : BattleEmo}
    (first : Changed added before middle) (second : Changed added middle after) :
    Changed added before after where
  id := second.id.trans first.id
  baseId := second.baseId.trans first.baseId
  typ := second.typ.trans first.typ
  isTriple := second.isTriple.trans first.isTriple
  abilities ability member := by
    rcases second.abilities ability member with kept | new
    · exact first.abilities ability kept
    · exact .inr new

/-- All emos of both boards stay where they are. -/
def BoardsChanged (added : Option Ability.Battle) (before after : BattleBoards) : Prop :=
  ∀ playerIndex,
    List.Forall₂ (Changed added) (before.getBoard playerIndex) (after.getBoard playerIndex)

theorem forall₂_changed_refl (added : Option Ability.Battle) (board : List BattleEmo) :
    List.Forall₂ (Changed added) board board :=
  List.forall₂_same.mpr fun emo _ => .refl added emo

theorem BoardsChanged.refl (added : Option Ability.Battle) (boards : BattleBoards) :
    BoardsChanged added boards boards :=
  fun playerIndex => forall₂_changed_refl added (boards.getBoard playerIndex)

theorem BoardsChanged.trans {added : Option Ability.Battle} {before middle after : BattleBoards}
    (first : BoardsChanged added before middle) (second : BoardsChanged added middle after) :
    BoardsChanged added before after := by
  have composes : ∀ {xs ys zs : List BattleEmo}, List.Forall₂ (Changed added) xs ys →
      List.Forall₂ (Changed added) ys zs → List.Forall₂ (Changed added) xs zs := by
    intro xs ys zs left
    induction left generalizing zs with
    | nil =>
        intro right
        cases right
        exact .nil
    | cons changed _ ih =>
        intro right
        cases right with
        | cons again rest => exact .cons (changed.trans again) (ih rest)
  exact fun playerIndex => composes (first playerIndex) (second playerIndex)

theorem forall₂_changed_set {added : Option Ability.Battle} {board : List BattleEmo}
    {emoIndex : Nat} {emo changed : BattleEmo} (found : board[emoIndex]? = some emo)
    (change : Changed added emo changed) :
    List.Forall₂ (Changed added) board (board.set emoIndex changed) := by
  obtain ⟨bound, rfl⟩ := List.getElem?_eq_some_iff.mp found
  have related := Positions.forall₂_set (forall₂_changed_refl added board) emoIndex change
  rwa [List.set_getElem_self] at related

theorem BoardsChanged.setEmo {added : Option Ability.Battle} {boards : BattleBoards}
    {playerIndex : PlayerIndex} {emoIndex : Nat} {emo changed : BattleEmo}
    (found : (boards.getBoard playerIndex)[emoIndex]? = some emo)
    (change : Changed added emo changed) :
    BoardsChanged added boards (boards.setEmo playerIndex emoIndex changed) := by
  intro other
  by_cases same : other = playerIndex
  · subst same
    rw [BattleBoards.setEmo, BattleBoards.getBoard_setBoard]
    exact forall₂_changed_set found change
  · rw [BattleBoards.setEmo, BattleBoards.getBoard_setBoard_of_ne same]
    exact forall₂_changed_refl added _

variable (env : Env)

/-- A change in place generates no ids. -/
structure Update (added : Option Ability.Battle) (before after : St env) : Prop where
  boards : BoardsChanged added before.boards after.boards
  generatedIds : after.generatedIds = before.generatedIds

variable {env}

theorem Update.refl (added : Option Ability.Battle) (state : St env) :
    Update env added state state :=
  ⟨.refl added _, rfl⟩

theorem Update.trans {added : Option Ability.Battle} {before middle after : St env}
    (first : Update env added before middle) (second : Update env added middle after) :
    Update env added before after :=
  ⟨first.boards.trans second.boards, second.generatedIds.trans first.generatedIds⟩

theorem Update.setEmo {added : Option Ability.Battle} {state : St env}
    {playerIndex : PlayerIndex} {emoIndex : Nat} {emo changed : BattleEmo}
    (found : (state.getBoard playerIndex)[emoIndex]? = some emo)
    (change : Changed added emo changed) :
    Update env added state
      { state with boards := state.boards.setEmo playerIndex emoIndex changed } :=
  ⟨.setEmo found change, rfl⟩

theorem Update.addLog {added : Option Ability.Battle} {before after : St env}
    (update : Update env added before after) (log : Log) :
    Update env added before (after.addLog env log) :=
  ⟨by simpa using update.boards, by simpa using update.generatedIds⟩

/-- One assignment that adds and removes no emo, with its log. -/
inductive Write (env : Env) (added : Option Ability.Battle) : St env → St env → Prop where
  | rng (state : St env) (rng : env.sampler.Rng) : Write env added state { state with rng }
  | attack (state : St env) (attackPlayerIndex : PlayerIndex)
      (attackEmoIndex defenseEmoIndex : Nat) :
      Write env added state
        (state.addLog env (.attack attackPlayerIndex attackEmoIndex defenseEmoIndex))
  | increase {state : St env} {playerIndex : PlayerIndex} {emoIndex : Nat} {emo : BattleEmo}
      (found : (state.getBoard playerIndex)[emoIndex]? = some emo)
      (attack health calculatedAttack calculatedHealth : Nat)
      (alive : 1 ≤ emo.attributes.health → 1 ≤ calculatedHealth) :
      Write env added state (BattleState.addLog env
        { state with boards := state.boards.setEmo playerIndex emoIndex { emo with attributes :=
          { emo.attributes with attack := calculatedAttack, health := calculatedHealth } } }
        (.increaseStats playerIndex emoIndex attack health calculatedAttack calculatedHealth))
  | decrease {state : St env} {playerIndex : PlayerIndex} {emoIndex : Nat} {emo : BattleEmo}
      (found : (state.getBoard playerIndex)[emoIndex]? = some emo)
      (attack health calculatedAttack calculatedHealth : Nat) (alive : 1 ≤ calculatedHealth) :
      Write env added state (BattleState.addLog env
        { state with boards := state.boards.setEmo playerIndex emoIndex { emo with attributes :=
          { emo.attributes with attack := calculatedAttack, health := calculatedHealth } } }
        (.decreaseStats playerIndex emoIndex attack health calculatedAttack calculatedHealth))
  | ability {state : St env} {playerIndex : PlayerIndex} {emoIndex : Nat} {emo : BattleEmo}
      {ability : Ability.Battle} (found : (state.getBoard playerIndex)[emoIndex]? = some emo)
      (adds : added = some ability) (few : emo.attributes.abilities.length < u8Max) :
      Write env added state (BattleState.addLog env
        { state with boards := state.boards.setEmo playerIndex emoIndex { emo with attributes :=
          { emo.attributes with abilities := emo.attributes.abilities ++ [.battle ability] } } }
        (.addBattleAbility playerIndex emoIndex ability emo.attributes.isTriple))
  | shield {state : St env} {playerIndex : PlayerIndex} {emoIndex abilityIndex : Nat}
      {emo : BattleEmo} {ability : Ability.Battle}
      (found : (state.getBoard playerIndex)[emoIndex]? = some emo)
      (listed : emo.attributes.abilities[abilityIndex]? = some (.battle ability)) :
      Write env added state (BattleState.addLog env
        { state with boards := state.boards.setEmo playerIndex emoIndex { emo with attributes :=
          { emo.attributes with
            abilities := emo.attributes.abilities.eraseIdx abilityIndex } } }
        (.removeBattleAbility playerIndex emoIndex abilityIndex ability))
  | damage {state : St env} {playerIndex : PlayerIndex} {emoIndex : Nat} {emo : BattleEmo}
      (found : (state.getBoard playerIndex)[emoIndex]? = some emo) (damage : Nat) {health : Nat}
      (alive : 1 ≤ health) :
      Write env added state
        { state.addLog env (.damage playerIndex emoIndex damage health) with
          boards := state.boards.setEmo playerIndex emoIndex
            { emo with attributes := { emo.attributes with health } } }

abbrev Writes (env : Env) (added : Option Ability.Battle) : St env → St env → Prop :=
  Relation.ReflTransGen (Write env added)

theorem Write.update {added : Option Ability.Battle} {before after : St env}
    (write : Write env added before after) : Update env added before after := by
  cases write with
  | rng => exact ⟨.refl added _, rfl⟩
  | attack => exact (Update.refl added _).addLog _
  | increase found | decrease found =>
      refine (Update.setEmo found ?_).addLog _
      exact ⟨rfl, rfl, rfl, rfl, fun _ => .inl⟩
  | ability found adds =>
      refine (Update.setEmo found ?_).addLog _
      refine ⟨rfl, rfl, rfl, rfl, fun listed member => ?_⟩
      simpa [adds] using member
  | shield found =>
      refine (Update.setEmo found ?_).addLog _
      exact ⟨rfl, rfl, rfl, rfl, fun listed member => .inl (List.mem_of_mem_eraseIdx member)⟩
  | damage found =>
      refine ⟨?_, by simp⟩
      exact .setEmo found ⟨rfl, rfl, rfl, rfl, fun _ => .inl⟩

theorem Writes.update {added : Option Ability.Battle} {before after : St env}
    (writes : Writes env added before after) : Update env added before after := by
  induction writes with
  | refl => exact .refl added _
  | tail _ write ih => exact ih.trans write.update

theorem Writes.foldlM {added : Option Ability.Battle} {f : St env → Nat → Result (St env)}
    (step : ∀ {state emoIndex after}, f state emoIndex = .ok after →
      Writes env added state after) {indexes : List Nat} {state after : St env}
    (performed : indexes.foldlM f state = .ok after) : Writes env added state after := by
  induction indexes generalizing state with
  | nil =>
      cases performed
      exact .refl
  | cons emoIndex rest ih =>
      rw [List.foldlM_cons, Result.bind_eq_ok_iff] at performed
      obtain ⟨middle, first, second⟩ := performed
      exact (step first).trans (ih second)

theorem increaseEmoStats_writes {added : Option Ability.Battle} {playerIndex : PlayerIndex}
    {attack health emoIndex : Nat} {state after : St env}
    (performed : increaseEmoStats env playerIndex attack health state emoIndex = .ok after) :
    Writes env added state after := by
  unfold increaseEmoStats at performed
  split at performed
  · cases performed
    exact .refl
  · simp only [Result.bind_eq_ok_iff, BattleBoards.getEmoMut_eq_ok_iff,
      Result.pure_eq_ok_iff] at performed
    obtain ⟨emo, found, rfl⟩ := performed
    refine .single (.increase found _ _ _ _ fun alive => ?_)
    unfold saturatingAddU16 u16Max
    omega

theorem decreaseEmoStats_writes {added : Option Ability.Battle} {playerIndex : PlayerIndex}
    {attack health emoIndex : Nat} {state after : St env}
    (performed : decreaseEmoStats env playerIndex attack health state emoIndex = .ok after) :
    Writes env added state after := by
  unfold decreaseEmoStats at performed
  split at performed
  · cases performed
    exact .refl
  · simp only [Result.bind_eq_ok_iff, BattleBoards.getEmoMut_eq_ok_iff,
      Result.pure_eq_ok_iff] at performed
    obtain ⟨emo, found, rfl⟩ := performed
    exact .single (.decrease found _ _ _ _ (Nat.le_max_right _ _))

/-- An ability is added as long as a `u8` counts them. -/
theorem addAbilityToEmo_some {abilities after : List Ability} {battleAbility : Ability.Battle}
    (performed : addAbilityToEmo abilities battleAbility = some after) :
    abilities.length < u8Max ∧ after = abilities ++ [.battle battleAbility] := by
  unfold addAbilityToEmo at performed
  split at performed
  · cases performed
  · rename_i few
    refine ⟨Nat.lt_of_not_le few, ?_⟩
    split at performed
    · split at performed
      · cases performed
      · exact (Option.some.inj performed).symm
    · exact (Option.some.inj performed).symm

theorem addAbilityToEmoAt_writes {playerIndex : PlayerIndex} {ability : Ability.Battle}
    {emoIndex : Nat} {state after : St env}
    (performed : addAbilityToEmoAt env playerIndex ability state emoIndex = .ok after) :
    Writes env (some ability) state after := by
  simp only [addAbilityToEmoAt, Result.bind_eq_ok_iff,
    BattleBoards.getEmoMut_eq_ok_iff] at performed
  obtain ⟨emo, found, performed⟩ := performed
  split at performed
  · cases performed
    exact .refl
  · rename_i abilities added
    cases performed
    obtain ⟨few, rfl⟩ := addAbilityToEmo_some added
    exact .single (.ability found rfl few)

theorem increaseStats_writes {added : Option Ability.Battle} {playerIndex : PlayerIndex}
    {actionEmoIndex : Nat} {isActionEmoRetired isTripleAction : Bool}
    {targetOrRandom : TargetOrRandom} {attack health : Nat} {state after : St env}
    (performed : increaseStats env playerIndex actionEmoIndex isActionEmoRetired isTripleAction
      targetOrRandom attack health state = .ok after) : Writes env added state after := by
  simp only [increaseStats, Result.bind_eq_ok_iff] at performed
  obtain ⟨⟨indexes, rng⟩, _, performed⟩ := performed
  exact .head (.rng state rng) (Writes.foldlM increaseEmoStats_writes performed)

theorem decreaseStats_writes {added : Option Ability.Battle} {playerIndex : PlayerIndex}
    {actionEmoIndex : Nat} {isActionEmoRetired isTripleAction : Bool}
    {targetOrRandom : TargetOrRandom} {attack health : Nat} {state after : St env}
    (performed : decreaseStats env playerIndex actionEmoIndex isActionEmoRetired isTripleAction
      targetOrRandom attack health state = .ok after) : Writes env added state after := by
  simp only [decreaseStats, Result.bind_eq_ok_iff] at performed
  obtain ⟨⟨indexes, rng⟩, _, performed⟩ := performed
  exact .head (.rng state rng) (Writes.foldlM decreaseEmoStats_writes performed)

theorem addBattleAbility_writes {playerIndex : PlayerIndex} {actionEmoIndex : Nat}
    {isActionEmoRetired isTripleAction : Bool} {targetOrRandom : TargetOrRandom}
    {ability : Ability.Battle} {state after : St env}
    (performed : addBattleAbility env playerIndex actionEmoIndex isActionEmoRetired
      isTripleAction targetOrRandom ability state = .ok after) :
    Writes env (some ability) state after := by
  cases targetOrRandom with
  | target target =>
      simp only [addBattleAbility, Result.bind_eq_ok_iff] at performed
      obtain ⟨indexes, _, performed⟩ := performed
      exact .foldlM addAbilityToEmoAt_writes performed
  | random typAndTriple count =>
      exact .head (.rng state _) (Writes.foldlM addAbilityToEmoAt_writes performed)

/-! ## Insertions and removals -/

/-- A new emo of a known base at `position`. -/
structure Insertion (env : Env) (playerIndex : PlayerIndex) (position : Nat) (emo : BattleEmo)
    (before after : St env) : Prop where
  room : (before.getBoard playerIndex).length < boardEmoMaxCount
  bound : position ≤ (before.getBoard playerIndex).length
  boards : after.boards = before.boards.setBoard playerIndex
    ((before.getBoard playerIndex).insertIdx position emo)
  generatedIds : after.generatedIds = before.generatedIds + 1
  id : emo.id = generateBattleEmoId before.generatedIds
  base : ∃ id base, env.emoBases id = some base ∧ emo.baseId = base.id ∧
    emo.attributes.abilities = base.abilities

structure Removal (env : Env) (playerIndex : PlayerIndex) (position : Nat)
    (before after : St env) : Prop where
  bound : position < (before.getBoard playerIndex).length
  boards : after.boards = before.boards.setBoard playerIndex
    ((before.getBoard playerIndex).eraseIdx position)
  generatedIds : after.generatedIds = before.generatedIds

inductive Effect (env : Env) (added : Option Ability.Battle) (before after : St env) : Prop where
  | update (update : Update env added before after)
  /-- `set_emo` on a full board. -/
  | noRoom (boards : after.boards = before.boards)
      (generatedIds : after.generatedIds = before.generatedIds + 1)
  | insertion {playerIndex : PlayerIndex} {position : Nat} {emo : BattleEmo}
      (inserted : Insertion env playerIndex position emo before after)
  | removal {playerIndex : PlayerIndex} {position : Nat}
      (removed : Removal env playerIndex position before after)

/-! ## Where calls come from -/

/-- The action that a task is about to perform. -/
def Task.action? : Task → Option NormalAction
  | .callAbilityNormalActionAsOneself _ action _ _ _ => some action
  | .callAbilityGeneralAsAllyAction _ (.oneselfTripleNormal action) _ _ _ _ => some action
  | .callShieldRemovedAbilityOf _ action _ _ _ _ => some action
  | _ => none

def addedAbility? : NormalAction → Option Ability.Battle
  | .addBattleAbility _ ability => some ability
  | _ => none

/-- The retired emo that a task carries. -/
def Task.retiredEmo? : Task → Option BattleEmo
  | .callAbilityNormalActionAsOneself _ _ _ retiredActionEmoOpt _ => retiredActionEmoOpt
  | .callAbilityGeneralAsAllyAction _ _ _ retiredAllyEmoOpt _ _ => retiredAllyEmoOpt
  | .callEmoRetireBoardAbilities _ _ retiredEmo => some retiredEmo
  | .callEmoRetireRivalAbilities _ retiredEmo => some retiredEmo
  | _ => none

/-- An emo that a task can see: it stands on a board or the task carries it. -/
def Known (task : Task) (boards : BattleBoards) (emo : BattleEmo) : Prop :=
  (∃ playerIndex, emo ∈ boards.getBoard playerIndex) ∨ task.retiredEmo? = some emo

/-- The calls that a task makes, and where their arguments come from.  Indexes
of snapshots are those of the boards that the calls start from. -/
inductive Origin (env : Env) (task : Task) (before after : St env) : Task → Prop where
  | asOneself {playerIndex : PlayerIndex} {entry : BoardAbility}
      {trigger : Ability.Battle.GeneralAsOneselfTrigger} {action : NormalAction}
      (member : entry ∈ after.boards.getBoardAbilities playerIndex)
      (listed : entry.ability = .general (.asOneself trigger action)) :
      Origin env task before after (.callAbilityNormalActionAsOneself playerIndex action
        entry.emoIndex none (some entry.ownerId))
  | asAlly {playerIndex : PlayerIndex} {entry : BoardAbility}
      {trigger : Ability.Battle.GeneralAsAllyTrigger} {action : GeneralAsAllyAction}
      {allyEmoIndex : Nat} {retiredAllyEmoOpt : Option BattleEmo}
      (member : entry ∈ after.boards.getBoardAbilities playerIndex)
      (listed : entry.ability = .general (.asAlly trigger action))
      (retired : ∀ emo, retiredAllyEmoOpt = some emo → Known task before.boards emo) :
      Origin env task before after (.callAbilityGeneralAsAllyAction playerIndex action
        allyEmoIndex retiredAllyEmoOpt entry.emoIndex entry.ownerId)
  | shieldRemoved {playerIndex : PlayerIndex} {entry : BoardAbility}
      {trigger : Ability.Battle.GeneralAsOneselfTrigger} {action : NormalAction}
      {excludesSameBase : Bool} {shieldRemovedEmoBaseId : Nat}
      (member : entry ∈ after.boards.getBoardAbilities playerIndex)
      (listed : entry.ability = .general (.asOneself trigger action)) :
      Origin env task before after (.callShieldRemovedAbilityOf playerIndex action
        entry.emoIndex excludesSameBase shieldRemovedEmoBaseId entry.ownerId)
  | retire {playerIndex : PlayerIndex} {emo : BattleEmo} {ability : Ability.Battle}
      {action : NormalAction} {emoIndex : Nat} {retiredActionEmoOpt : Option BattleEmo}
      (known : Known task before.boards emo)
      (listed : .battle ability ∈ emo.attributes.abilities)
      (retires : retireAction? ability = some action)
      (retired : ∀ emo, retiredActionEmoOpt = some emo → Known task before.boards emo) :
      Origin env task before after (.callAbilityNormalActionAsOneself playerIndex action
        emoIndex retiredActionEmoOpt none)
  | retireBoard {playerIndex : PlayerIndex} {emoIndex : Nat} {emo : BattleEmo}
      (known : Known task before.boards emo) :
      Origin env task before after (.callEmoRetireBoardAbilities playerIndex emoIndex emo)
  | retireRival {playerIndex : PlayerIndex} {emo : BattleEmo}
      (known : Known task before.boards emo) :
      Origin env task before after (.callEmoRetireRivalAbilities playerIndex emo)
  | setEmo {playerIndex : PlayerIndex} {emoIndex baseId divisor : Nat} {isTriple : Bool}
      {attackAndSurvivedCount : Nat} {side : Side}
      (acts : task.action? = some (.setEmosByAttackDiv side baseId divisor)) :
      Origin env task before after (.setEmo playerIndex emoIndex baseId isTriple
        attackAndSurvivedCount side)
  | damageAllEmosOf {playerIndex : PlayerIndex} {damage emoId : Nat} :
      Origin env task before after (.damageAllEmosOf playerIndex damage emoId)
  | attackDamage {attackPlayerIndex : PlayerIndex} {attackEmoIndex defenseEmoIndex : Nat}
      (attacks : task = .attack attackPlayerIndex) :
      Origin env task before after (.attackDamage attackPlayerIndex attackEmoIndex
        defenseEmoIndex)
  | counter {attackPlayerIndex : PlayerIndex}
      {attackEmoIndex defenseEmoIndex : Nat} {attackEmo defenseEmo : BattleEmo}
      (attacks : task = .attackDamage attackPlayerIndex attackEmoIndex defenseEmoIndex)
      (found : (before.getBoard attackPlayerIndex)[attackEmoIndex]? = some attackEmo)
      (defended : (before.getBoard (switchPlayerIndex attackPlayerIndex))[defenseEmoIndex]? =
        some defenseEmo)
      (undisturbed : after.getBoard attackPlayerIndex = before.getBoard attackPlayerIndex) :
      Origin env task before after (.attackDamageCounter attackPlayerIndex attackEmoIndex
        defenseEmo.attributes.attack attackEmo.id)
  | count {attackPlayerIndex : PlayerIndex}
      {attackEmoIndex defenseEmoAttack attackEmoId : Nat}
      (attacks : task = .attackDamageCounter attackPlayerIndex attackEmoIndex defenseEmoAttack
        attackEmoId)
      (update : Update env none before after) :
      Origin env task before after (.countAttackAndSurvived attackPlayerIndex attackEmoIndex
        attackEmoId)
  | marchLoop {tick : Tick} (marches : task = .marchBegin tick ∨ ∃ last, task = .marchNext last) :
      Origin env task before after (.marchLoop tick)
  | marchAttack {tick : Tick} (marches : task = .marchLoop tick) :
      Origin env task before after (.attack tick.attackPlayerIndex)
  | marchNext {tick : Tick} (marches : task = .marchLoop tick) :
      Origin env task before after (.marchNext tick)

/-- All that a task does. -/
structure Performs (env : Env) (task : Task) (before : St env) (calls : List Task)
    (after : St env) : Prop where
  effect : Effect env (task.action?.bind addedAbility?) before after
  origin : ∀ call ∈ calls, Origin env task before after call

theorem Performs.update {task : Task} {before after : St env}
    (update : Update env (task.action?.bind addedAbility?) before after) :
    Performs env task before [] after :=
  ⟨.update update, List.forall_mem_nil _⟩

/-! ## Setting emos -/

theorem addEmo_cases {playerIndex : PlayerIndex} {emoIndex : Nat} {emo : BattleEmo}
    {state after : St env} {calls : List Task}
    (performed : addEmo env playerIndex emoIndex emo state = .ok (calls, after)) :
    (boardEmoMaxCount ≤ (state.getBoard playerIndex).length ∧ calls = [] ∧ after = state) ∨
    ((state.getBoard playerIndex).length < boardEmoMaxCount ∧
      emoIndex ≤ (state.getBoard playerIndex).length ∧
      after.boards = state.boards.setBoard playerIndex
        ((state.getBoard playerIndex).insertIdx emoIndex emo) ∧
      after.generatedIds = state.generatedIds ∧
      ∀ call ∈ calls, ∃ entry typAndTriple action,
        entry ∈ after.boards.getBoardAbilities playerIndex ∧
        entry.ability = .general (.asAlly (.allySet typAndTriple) action) ∧
        call = .callAbilityGeneralAsAllyAction playerIndex action emoIndex none
          entry.emoIndex entry.ownerId) := by
  unfold addEmo at performed
  dsimp only at performed
  split at performed
  · rename_i room
    simp only [Result.bind_eq_ok_iff, ensure_eq_ok_iff, BattleBoards.getEmo_eq_ok_iff,
      Result.pure_eq_ok_iff, Prod.mk.injEq] at performed
    obtain ⟨_, bound, addedEmo, _, rfl, rfl⟩ := performed
    refine .inr ⟨room, bound, by simp, by simp, fun call member => ?_⟩
    obtain ⟨entry, listed, made⟩ := List.mem_filterMap.mp member
    split at made
    · cases made
    · split at made
      · rename_i action ability
        split at made
        · exact ⟨entry, _, action, listed, ability, (Option.some.inj made).symm⟩
        · cases made
      · cases made
  · rename_i full
    cases performed
    exact .inl ⟨Nat.le_of_not_lt full, rfl, rfl⟩

/-- `set_emo` inserts one emo or finds no room. -/
theorem setEmo_performs {task : Task} {playerIndex : PlayerIndex} {emoIndex baseId : Nat}
    {isTriple : Bool} {attackAndSurvivedCount : Nat} {side : Side} {state after : St env}
    {calls : List Task}
    (performed : setEmo env playerIndex emoIndex baseId isTriple attackAndSurvivedCount side
      state = .ok (calls, after)) : Performs env task state calls after := by
  simp only [setEmo, Result.bind_eq_ok_iff, Emo.Bases.find_eq_ok_iff] at performed
  obtain ⟨base, resolved, performed⟩ := performed
  have added : ∃ player position emo,
      addEmo env player position emo { state with generatedIds := state.generatedIds + 1 } =
        .ok (calls, after) ∧ emo.id = generateBattleEmoId state.generatedIds ∧
        emo.baseId = base.id ∧ emo.attributes.abilities = base.abilities := by
    cases side with
    | ally => exact ⟨_, _, _, performed, rfl, rfl, rfl⟩
    | rival => exact ⟨_, _, _, performed, rfl, rfl, rfl⟩
  obtain ⟨player, position, emo, performed, id, ofBase, abilities⟩ := added
  rcases addEmo_cases performed with ⟨_, rfl, rfl⟩ | ⟨room, bound, boards, generated, origin⟩
  · exact ⟨.noRoom rfl rfl, List.forall_mem_nil _⟩
  · refine ⟨.insertion ⟨room, bound, boards, generated, id, baseId, base, resolved, ofBase,
      abilities⟩, fun call member => ?_⟩
    obtain ⟨entry, trigger, action, listed, ability, rfl⟩ := origin call member
    refine .asAlly listed ability fun emo same => ?_
    cases same

/-! ## Damage and retirement -/

theorem callShieldRemovedAbility_cases {playerIndex : PlayerIndex}
    {shieldRemovedEmoIndex : Nat} {state after : St env} {calls : List Task}
    (performed : callShieldRemovedAbility env playerIndex shieldRemovedEmoIndex state =
      .ok (calls, after)) :
    after = state ∧ ∀ call ∈ calls, ∃ entry typAndTriple ability action excludesSameBase baseId,
      entry ∈ state.boards.getBoardAbilities playerIndex ∧
      entry.ability = .general (.asOneself
        (.allyBattleAbilityRemoved typAndTriple excludesSameBase ability) action) ∧
      call = .callShieldRemovedAbilityOf playerIndex action entry.emoIndex excludesSameBase
        baseId entry.ownerId := by
  simp only [callShieldRemovedAbility, Result.bind_eq_ok_iff, Result.pure_eq_ok_iff,
    Prod.mk.injEq] at performed
  obtain ⟨emo, _, rfl, rfl⟩ := performed
  refine ⟨rfl, fun call member => ?_⟩
  obtain ⟨entry, listed, made⟩ := List.mem_filterMap.mp member
  split at made
  · rename_i typAndTriple excludesSameBase ability action same
    split at made
    · cases made
    · split at made
      · exact ⟨entry, _, _, action, excludesSameBase, emo.baseId, listed, same,
          (Option.some.inj made).symm⟩
      · cases made
  · cases made

theorem removeShield_cases {playerIndex : PlayerIndex} {emoIndex shieldAbilityIndex : Nat}
    {state after : St env} {calls : List Task}
    (performed : removeShield env playerIndex emoIndex shieldAbilityIndex state =
      .ok (calls, after)) :
    Update env none state after ∧
      (∀ other ≠ playerIndex, after.getBoard other = state.getBoard other) ∧
      ∀ call ∈ calls, ∃ entry typAndTriple ability action excludesSameBase baseId,
        entry ∈ after.boards.getBoardAbilities playerIndex ∧
        entry.ability = .general (.asOneself
          (.allyBattleAbilityRemoved typAndTriple excludesSameBase ability) action) ∧
        call = .callShieldRemovedAbilityOf playerIndex action entry.emoIndex excludesSameBase
          baseId entry.ownerId := by
  simp only [removeShield, Result.bind_eq_ok_iff, BattleBoards.getEmoMut_eq_ok_iff,
    okOr_eq_ok_iff] at performed
  obtain ⟨emo, found, ability, _, battle, _, performed⟩ := performed
  obtain ⟨rfl, origin⟩ := callShieldRemovedAbility_cases performed
  refine ⟨?_, fun other different => ?_, origin⟩
  · refine (Update.setEmo found ?_).addLog _
    exact ⟨rfl, rfl, rfl, rfl, fun listed member => .inl (List.mem_of_mem_eraseIdx member)⟩
  · simp [BattleState.getBoard, BattleBoards.setEmo,
      BattleBoards.getBoard_setBoard_of_ne different]

theorem callEmoRetirePlayerAbilities_cases {playerIndex : PlayerIndex} {retiredEmoIndex : Nat}
    {retiredEmo : BattleEmo} {state after : St env} {calls : List Task}
    (performed : callEmoRetirePlayerAbilities env playerIndex retiredEmoIndex retiredEmo state =
      .ok (calls, after)) :
    after = state ∧ ∀ call ∈ calls,
      (∃ ability action, .battle ability ∈ retiredEmo.attributes.abilities ∧
        retireAction? ability = some action ∧
        call = .callAbilityNormalActionAsOneself playerIndex action retiredEmoIndex
          (some retiredEmo) none) ∨
      call = .callEmoRetireBoardAbilities playerIndex retiredEmoIndex retiredEmo := by
  simp only [callEmoRetirePlayerAbilities, Result.bind_eq_ok_iff, Result.pure_eq_ok_iff,
    Prod.mk.injEq] at performed
  obtain ⟨abilities, indexed, rfl, rfl⟩ := performed
  refine ⟨rfl, fun call member => ?_⟩
  rcases List.mem_append.mp member with own | last
  · obtain ⟨⟨abilityIndex, ability⟩, listed, made⟩ := List.mem_filterMap.mp own
    obtain ⟨action, retires, rfl⟩ := Option.map_eq_some_iff.mp made
    have present := BattleEmo.mem_getAbilities indexed listed
    exact .inl ⟨ability, action, List.mem_of_getElem? present, retires, rfl⟩
  · exact .inr (List.mem_singleton.mp last)

/-- `retire_emo` removes the emo, and every call it makes sees it. -/
theorem retireEmo_cases {playerIndex : PlayerIndex} {emoIndex : Nat} {state after : St env}
    {calls : List Task}
    (performed : retireEmo env playerIndex emoIndex state = .ok (calls, after)) :
    Removal env playerIndex emoIndex state after ∧
      ∀ task (before : St env), before.boards = state.boards →
        ∀ call ∈ calls, Origin env task before after call := by
  simp only [retireEmo, Result.bind_eq_ok_iff, okOr_eq_ok_iff, Result.pure_eq_ok_iff,
    Prod.exists, Prod.mk.injEq] at performed
  obtain ⟨removedEmo, found, own, middle, performed, rfl, rfl⟩ := performed
  obtain ⟨rfl, origin⟩ := callEmoRetirePlayerAbilities_cases performed
  have bound := (List.getElem?_eq_some_iff.mp found).1
  refine ⟨⟨bound, by simp, by simp⟩, fun task before same call member => ?_⟩
  have known : Known task before.boards removedEmo :=
    .inl ⟨playerIndex, same ▸ List.mem_of_getElem? found⟩
  rcases List.mem_append.mp member with own | last
  · rcases origin call own with ⟨ability, action, listed, retires, rfl⟩ | rfl
    · exact .retire known listed retires fun emo same => Option.some.inj same ▸ known
    · exact .retireBoard known
  · rw [List.mem_singleton.mp last]
    exact .retireRival known

/-- What `damage_emo` does: it takes a shield, or nothing, or the emo, or some
of its health. -/
inductive Damaged (env : Env) (damage : Nat) (playerIndex : PlayerIndex) (emoIndex : Nat)
    (state : St env) : Bool → List Task → St env → Prop where
  | shield {emo : BattleEmo} {abilityIndex : Nat} {calls : List Task} {after : St env}
      (found : (state.getBoard playerIndex)[emoIndex]? = some emo)
      (listed : emo.attributes.abilities[abilityIndex]? = some (.battle (.special .shield)))
      (removed : removeShield env playerIndex emoIndex abilityIndex state = .ok (calls, after)) :
      Damaged env damage playerIndex emoIndex state true calls after
  | nothing (none : damage = 0) : Damaged env damage playerIndex emoIndex state true [] state
  | retired {emo : BattleEmo} {calls : List Task} {after : St env}
      (found : (state.getBoard playerIndex)[emoIndex]? = some emo)
      (dead : emo.attributes.health - damage = 0)
      (retires : retireEmo env playerIndex emoIndex
        (state.addLog env (.damage playerIndex emoIndex damage 0)) = .ok (calls, after)) :
      Damaged env damage playerIndex emoIndex state false calls after
  | wounded {emo : BattleEmo} (found : (state.getBoard playerIndex)[emoIndex]? = some emo)
      (alive : 0 < emo.attributes.health - damage) {logged : St env}
      (log : logged = state.addLog env (.damage playerIndex emoIndex damage
        (emo.attributes.health - damage))) :
      Damaged env damage playerIndex emoIndex state true []
        { logged with boards := logged.boards.setEmo playerIndex emoIndex { emo with attributes :=
            { emo.attributes with health := emo.attributes.health - damage } } }

theorem removeShieldIfExist_cases {playerIndex : PlayerIndex} {emoIndex : Nat} {state : St env}
    {shielded : Option (Calls env)}
    (performed : removeShieldIfExist env playerIndex emoIndex state = .ok shielded) :
    shielded = none ∨ ∃ emo abilityIndex calls after,
      (state.getBoard playerIndex)[emoIndex]? = some emo ∧
      emo.attributes.abilities[abilityIndex]? = some (.battle (.special .shield)) ∧
      removeShield env playerIndex emoIndex abilityIndex state = .ok (calls, after) ∧
      shielded = some (calls, after) := by
  simp only [removeShieldIfExist, Result.bind_eq_ok_iff, BattleBoards.getEmo_eq_ok_iff]
    at performed
  obtain ⟨emo, found, abilities, listed, performed⟩ := performed
  split at performed
  · rename_i abilityIndex ability first
    simp only [Result.map_eq_ok_iff] at performed
    obtain ⟨⟨calls, after⟩, removed, rfl⟩ := performed
    have shield := BattleEmo.mem_getAbilities listed (List.mem_of_find?_eq_some first)
    have isShield := List.find?_some first
    rw [decide_eq_true_eq] at isShield
    subst isShield
    exact .inr ⟨emo, abilityIndex, calls, after, found, shield, removed, rfl⟩
  · cases performed
    exact .inl rfl

theorem damageEmo_damaged {damage : Nat} {playerIndex : PlayerIndex} {emoIndex : Nat}
    {state after : St env} {survived : Bool} {calls : List Task}
    (performed : damageEmo env damage playerIndex emoIndex state =
      .ok (survived, calls, after)) :
    Damaged env damage playerIndex emoIndex state survived calls after := by
  simp only [damageEmo, Result.bind_eq_ok_iff] at performed
  obtain ⟨shielded, removal, performed⟩ := performed
  obtain rfl | ⟨emo, abilityIndex, _, _, found, listed, removed, rfl⟩ :=
    removeShieldIfExist_cases removal
  · dsimp only at performed
    split at performed
    · rename_i none
      cases performed
      exact .nothing none
    · simp only [Result.bind_eq_ok_iff, BattleBoards.getEmoMut_eq_ok_iff] at performed
      obtain ⟨emo, found, performed⟩ := performed
      split at performed
      · rename_i dead
        simp only [Result.bind_eq_ok_iff, Result.pure_eq_ok_iff, Prod.mk.injEq] at performed
        obtain ⟨_, retires, rfl, rfl⟩ := performed
        rw [dead] at retires
        exact .retired found dead retires
      · rename_i alive
        cases performed
        exact .wounded found (Nat.pos_of_ne_zero alive) rfl
  · cases performed
    exact .shield found listed removed

/-- `damage_emo` retires the emo or changes it in place. -/
theorem damageEmo_cases {damage : Nat} {playerIndex : PlayerIndex} {emoIndex : Nat}
    {state after : St env} {survived : Bool} {calls : List Task}
    (performed : damageEmo env damage playerIndex emoIndex state =
      .ok (survived, calls, after)) :
    (survived = true ∧ Update env none state after ∨
      survived = false ∧ Removal env playerIndex emoIndex state after) ∧
    (∀ other ≠ playerIndex, after.getBoard other = state.getBoard other) ∧
    ∀ task, ∀ call ∈ calls, Origin env task state after call := by
  cases damageEmo_damaged performed with
  | shield _ _ removed =>
      obtain ⟨update, others, origin⟩ := removeShield_cases removed
      refine ⟨.inl ⟨rfl, update⟩, others, fun task call member => ?_⟩
      obtain ⟨entry, _, _, action, _, _, listed, ability, rfl⟩ := origin call member
      exact .shieldRemoved listed ability
  | nothing =>
      exact ⟨.inl ⟨rfl, .refl none state⟩, fun _ _ => rfl, fun _ => List.forall_mem_nil _⟩
  | retired _ _ retires =>
      obtain ⟨⟨bound, boards, generated⟩, origin⟩ := retireEmo_cases retires
      simp only [BattleState.addLog_boards, BattleState.getBoard] at bound boards
      refine ⟨.inr ⟨rfl, bound, boards, by simpa using generated⟩, fun other different => ?_,
        fun task call member => ?_⟩
      · rw [BattleState.getBoard, boards, BattleBoards.getBoard_setBoard_of_ne different]
      · exact origin task state (by simp) call member
  | @wounded emo found alive _ log =>
      subst log
      refine ⟨.inl ⟨rfl, ?_⟩, fun other different => ?_, fun _ => List.forall_mem_nil _⟩
      · have found : ((state.addLog env (.damage playerIndex emoIndex damage
            (emo.attributes.health - damage))).getBoard playerIndex)[emoIndex]? = some emo := by
          simpa using found
        have logged : Update env none state (state.addLog env (.damage playerIndex emoIndex
            damage (emo.attributes.health - damage))) := (Update.refl none state).addLog _
        refine logged.trans (Update.setEmo found ?_)
        exact ⟨rfl, rfl, rfl, rfl, fun _ => .inl⟩
      · simp [BattleState.getBoard, BattleBoards.setEmo,
          BattleBoards.getBoard_setBoard_of_ne different]

/-! ## Abilities -/

/-- What an action does: it sets one emo, or calls for emos to be set, or calls
for damage, or writes to the emos that are there. -/
inductive Acted (env : Env) (playerIndex : PlayerIndex) (action : NormalAction)
    (actionEmoIndex : Nat) (retiredActionEmoOpt : Option BattleEmo) (state : St env)
    (calls : List Task) (after : St env) : Prop where
  | set {side : Side} {baseId : Nat} {isTriple : Bool} {actionEmo : BattleEmo}
      (sets : action = .setEmo side baseId)
      (found : getActionEmo env playerIndex actionEmoIndex retiredActionEmoOpt state =
        .ok actionEmo)
      (performed : setEmo env playerIndex
        (if retiredActionEmoOpt.isSome then actionEmoIndex else actionEmoIndex + 1) baseId isTriple
        actionEmo.attackAndSurvivedCount side state = .ok (calls, after))
  | callsSet {side : Side} {baseId divisor emoIndex : Nat} {isTriple : Bool}
      {actionEmo : BattleEmo} (sets : action = .setEmosByAttackDiv side baseId divisor)
      (found : getActionEmo env playerIndex actionEmoIndex retiredActionEmoOpt state =
        .ok actionEmo)
      (made : ∀ call ∈ calls, call = .setEmo playerIndex emoIndex baseId isTriple
        actionEmo.attackAndSurvivedCount side)
      (same : after = state)
  | callsDamage (made : ∀ call ∈ calls, ∃ player damage emoId,
        call = .damageAllEmosOf player damage emoId)
      (same : after = state)
  | writes (writes : Writes env (addedAbility? action) state after) (none : calls = [])

theorem callAbilityNormalAction_acted {playerIndex : PlayerIndex} {action : NormalAction}
    {actionEmoIndex : Nat} {retiredActionEmoOpt : Option BattleEmo} {isTripleAction : Bool}
    {state after : St env} {calls : List Task}
    (performed : callAbilityNormalAction env playerIndex action actionEmoIndex
      retiredActionEmoOpt isTripleAction state = .ok (calls, after)) :
    Acted env playerIndex action actionEmoIndex retiredActionEmoOpt state calls after := by
  simp only [callAbilityNormalAction, Result.bind_eq_ok_iff] at performed
  obtain ⟨actionEmo, found, performed⟩ := performed
  cases action with
  | setEmo side baseId => exact .set rfl found performed
  | setEmosByAttackDiv side baseId divisor =>
      simp only [setEmosByAttackDiv, Result.bind_eq_ok_iff, Result.pure_eq_ok_iff,
        Prod.mk.injEq] at performed
      obtain ⟨_, _, rfl, rfl⟩ := performed
      exact .callsSet rfl found (fun call member => List.eq_of_mem_replicate member) rfl
  | damageAll side damage =>
      cases side with
      | ally | rival =>
          cases performed
          refine .callsDamage (fun call member => ?_) rfl
          obtain ⟨emo, _, rfl⟩ := List.mem_map.mp member
          exact ⟨_, _, _, rfl⟩
  | increaseStats targetOrRandom attack health =>
      simp only [Result.bind_eq_ok_iff, Result.pure_eq_ok_iff, Prod.mk.injEq] at performed
      obtain ⟨_, performed, rfl, rfl⟩ := performed
      exact .writes (increaseStats_writes performed) rfl
  | decreaseStats targetOrRandom attack health =>
      simp only [Result.bind_eq_ok_iff, Result.pure_eq_ok_iff, Prod.mk.injEq] at performed
      obtain ⟨_, performed, rfl, rfl⟩ := performed
      exact .writes (decreaseStats_writes performed) rfl
  | increaseStatsByEmoCount side targetOrRandom countCondition attack health =>
      simp only [Result.bind_eq_ok_iff, Result.pure_eq_ok_iff, Prod.mk.injEq] at performed
      obtain ⟨_, performed, rfl, rfl⟩ := performed
      exact .writes (increaseStats_writes performed) rfl
  | addBattleAbility targetOrRandom ability =>
      simp only [Result.bind_eq_ok_iff, Result.pure_eq_ok_iff, Prod.mk.injEq] at performed
      obtain ⟨_, performed, rfl, rfl⟩ := performed
      exact .writes (addBattleAbility_writes performed) rfl

theorem Acted.performs {task : Task} {playerIndex : PlayerIndex} {action : NormalAction}
    {actionEmoIndex : Nat} {retiredActionEmoOpt : Option BattleEmo} {state after : St env}
    {calls : List Task} (acts : task.action? = some action)
    (acted : Acted env playerIndex action actionEmoIndex retiredActionEmoOpt state calls after) :
    Performs env task state calls after := by
  cases acted with
  | set _ _ performed => exact setEmo_performs performed
  | callsSet sets _ made same =>
      subst sets same
      refine ⟨.update (.refl _ _), fun call member => ?_⟩
      rw [made call member]
      exact .setEmo acts
  | callsDamage made same =>
      subst same
      refine ⟨.update (.refl _ _), fun call member => ?_⟩
      obtain ⟨_, _, _, rfl⟩ := made call member
      exact .damageAllEmosOf
  | writes writes none =>
      subst none
      refine .update ?_
      rw [acts]
      exact writes.update

/-- The emo of an action stands on its board or is the retired one. -/
theorem getActionEmo_known {task : Task} {playerIndex : PlayerIndex} {emoIndex : Nat}
    {state : St env} {emo : BattleEmo}
    (found : getActionEmo env playerIndex emoIndex task.retiredEmo? state = .ok emo) :
    Known task state.boards emo := by
  cases retired : task.retiredEmo? with
  | some retiredEmo =>
      rw [retired] at found
      cases found
      exact .inr retired
  | none =>
      simp only [retired, getActionEmo, BattleBoards.getEmo_eq_ok_iff] at found
      exact .inl ⟨playerIndex, List.mem_of_getElem? found⟩

/-- Every task changes the boards in one of the four ways and makes calls of
the listed kinds only. -/
theorem perform_performs {task : Task} {state after : St env} {calls : List Task}
    (performed : perform env task state = .ok (calls, after)) :
    Performs env task state calls after := by
  cases task with
  | callPreAbilitiesOf playerIndex =>
      cases performed
      refine ⟨.update (.refl _ state), fun call member => ?_⟩
      obtain ⟨_, _, _, _, listed, ability, rfl⟩ := mem_callPreAbilitiesOf member
      exact .asOneself listed ability
  | attack attackPlayerIndex =>
      obtain ⟨attackEmoIndex, defenseEmoIndex, _, rng, _, _, rfl, rfl⟩ := attack_cases performed
      refine ⟨.update ⟨by simpa using .refl _ state.boards, by simp⟩, fun call member => ?_⟩
      rw [List.mem_singleton.mp member]
      exact .attackDamage rfl
  | attackDamage attackPlayerIndex attackEmoIndex defenseEmoIndex =>
      obtain ⟨attackEmo, defenseEmo, survived, own, found, defended, damaged, rfl⟩ :=
        attackDamage_cases performed
      obtain ⟨outcome, others, origin⟩ := damageEmo_cases damaged
      refine ⟨?_, fun call member => ?_⟩
      · rcases outcome with ⟨_, update⟩ | ⟨_, removed⟩
        · exact .update update
        · exact .removal removed
      · rcases List.mem_append.mp member with made | last
        · exact origin _ call made
        · rw [List.mem_singleton.mp last]
          exact .counter rfl found defended
            (others _ (switchPlayerIndex_ne attackPlayerIndex).symm)
  | attackDamageCounter attackPlayerIndex attackEmoIndex defenseEmoAttack attackEmoId =>
      rcases attackDamageCounter_cases performed with
        ⟨_, rfl, rfl⟩ | ⟨survived, own, _, damaged, rfl⟩
      · exact .update (.refl _ _)
      · obtain ⟨outcome, _, origin⟩ := damageEmo_cases damaged
        rcases outcome with ⟨rfl, update⟩ | ⟨rfl, removed⟩
        · refine ⟨.update update, fun call member => ?_⟩
          rcases List.mem_append.mp member with made | last
          · exact origin _ call made
          · rw [List.mem_singleton.mp last]
            exact .count rfl update
        · rw [if_neg Bool.false_ne_true, List.append_nil]
          exact ⟨.removal removed, origin _⟩
  | countAttackAndSurvived attackPlayerIndex attackEmoIndex attackEmoId =>
      obtain ⟨emo, found, rfl, rfl⟩ := countAttackAndSurvived_cases performed
      refine .update (.setEmo found ?_)
      exact ⟨rfl, rfl, rfl, rfl, fun _ => .inl⟩
  | callAbilityNormalActionAsOneself | callShieldRemovedAbilityOf =>
      rcases act_cases rfl performed with ⟨_, rfl, rfl⟩ | ⟨_, performed⟩
      · exact .update (.refl _ _)
      · exact (callAbilityNormalAction_acted performed).performs rfl
  | callAbilityGeneralAsAllyAction playerIndex action =>
      cases action with
      | oneselfTripleNormal normalAction =>
          rcases act_cases rfl performed with ⟨_, rfl, rfl⟩ | ⟨_, performed⟩
          · exact .update (.refl _ _)
          · exact (callAbilityNormalAction_acted performed).performs rfl
      | custom asAllyAction =>
          obtain ⟨rfl, allyEmo, found, made⟩ := custom_cases performed
          refine ⟨.update (.refl _ _), fun call member => ?_⟩
          obtain ⟨ability, action, listed, retires, rfl⟩ := made call member
          exact .retire (getActionEmo_known found) listed retires fun emo same => .inr same
  | callEmoRetireBoardAbilities playerIndex retiredEmoIndex retiredEmo =>
      cases performed
      refine ⟨.update (.refl _ state), fun call member => ?_⟩
      rcases mem_callEmoRetireBoardAbilities member with
        ⟨_, _, _, listed, ability, rfl⟩ | ⟨_, _, _, _, listed, ability, rfl⟩
      · exact .asAlly listed ability fun emo same => .inr same
      · exact .asOneself listed ability
  | callEmoRetireRivalAbilities playerIndex retiredEmo =>
      cases performed
      refine ⟨.update (.refl _ state), fun call member => ?_⟩
      obtain ⟨_, _, _, _, listed, ability, rfl⟩ := mem_callEmoRetireRivalAbilities member
      exact .asOneself listed ability
  | setEmo playerIndex emoIndex baseId isTriple attackAndSurvivedCount side =>
      exact setEmo_performs performed
  | damageAllEmosOf playerIndex damage emoId =>
      rcases damageAllEmosOf_cases performed with ⟨rfl, rfl⟩ | ⟨survived, emoIndex, damaged⟩
      · exact .update (.refl _ _)
      · obtain ⟨outcome, _, origin⟩ := damageEmo_cases damaged
        rcases outcome with ⟨_, update⟩ | ⟨_, removed⟩
        · exact ⟨.update update, origin _⟩
        · exact ⟨.removal removed, origin _⟩
  | marchBegin tick =>
      obtain ⟨rfl, ⟨_, _, rfl⟩ | rfl⟩ := marchBegin_cases performed
      · exact .update (.refl _ _)
      · refine ⟨.update (.refl _ _), fun call member => ?_⟩
        rw [List.mem_singleton.mp member]
        exact .marchLoop (.inl rfl)
  | marchLoop tick =>
      cases performed
      refine ⟨.update (.refl _ state), fun call member => ?_⟩
      rcases List.mem_pair.mp member with rfl | rfl
      · exact .marchAttack rfl
      · exact .marchNext rfl
  | marchNext tick =>
      obtain ⟨rfl, ⟨_, _, rfl⟩ | ⟨_, rfl⟩⟩ := marchNext_cases performed
      · exact .update (.refl _ _)
      · refine ⟨.update (.refl _ _), fun call member => ?_⟩
        rw [List.mem_singleton.mp member]
        exact .marchLoop (.inr ⟨tick, rfl⟩)

/-! ## The cascade below an attack -/

/-- The tasks below an attack: none of them starts another one. -/
def Task.isCascade : Task → Bool
  | .attack _ | .attackDamage .. | .marchBegin _ | .marchLoop _ | .marchNext _ => false
  | _ => true

theorem Origin.isCascade {task call : Task} {before after : St env}
    (origin : Origin env task before after call) (cascade : task.isCascade) :
    call.isCascade := by
  cases origin with
  | attackDamage attacks => simp [attacks, Task.isCascade] at cascade
  | marchLoop marches =>
      rcases marches with marches | ⟨_, marches⟩ <;> simp [marches, Task.isCascade] at cascade
  | marchAttack marches => simp [marches, Task.isCascade] at cascade
  | marchNext marches => simp [marches, Task.isCascade] at cascade
  | _ => rfl

end EmojiBattler.Mtc.Battle
