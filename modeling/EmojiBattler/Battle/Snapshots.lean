import EmojiBattler.Battle.Outcomes
import EmojiBattler.Library.Positions

/-! # Indexes taken from earlier boards

The entries of `get_board_abilities` and the attack of `attack_damage` name
emos by their index, and the boards change before the index is used. -/

namespace EmojiBattler.Mtc.Battle

open EmojiBattler.Emo CallMachine Positions
open EmojiBattler.Emo.Ability.Battle (NormalAction)

variable {env : Env}

/-- The ids of the emos of a board. -/
def BattleBoards.ids (boards : BattleBoards) (playerIndex : PlayerIndex) : List Nat :=
  (boards.getBoard playerIndex).map BattleEmo.id

theorem BattleBoards.ids_getElem? (boards : BattleBoards) (playerIndex : PlayerIndex)
    (emoIndex : Nat) :
    (boards.ids playerIndex)[emoIndex]? =
      ((boards.getBoard playerIndex)[emoIndex]?).map BattleEmo.id :=
  List.getElem?_map

@[simp] theorem BattleBoards.length_ids (boards : BattleBoards) (playerIndex : PlayerIndex) :
    (boards.ids playerIndex).length = (boards.getBoard playerIndex).length :=
  List.length_map _

theorem BoardsChanged.ids_eq {added : Option Emo.Ability.Battle} {before after : BattleBoards}
    (changed : BoardsChanged added before after) (playerIndex : PlayerIndex) :
    after.ids playerIndex = before.ids playerIndex := by
  have same := changed playerIndex
  unfold BattleBoards.ids
  generalize before.getBoard playerIndex = board at same
  generalize after.getBoard playerIndex = board' at same
  induction same with
  | nil => rfl
  | cons change _ ih => rw [List.map_cons, List.map_cons, change.id, ih]

theorem Insertion.ids_eq {playerIndex : PlayerIndex} {position : Nat} {emo : BattleEmo}
    {before after : St env} (inserted : Insertion env playerIndex position emo before after) :
    after.boards.ids playerIndex = (before.boards.ids playerIndex).insertIdx position emo.id := by
  rw [BattleBoards.ids, inserted.boards, BattleBoards.getBoard_setBoard, List.map_insertIdx]
  rfl

theorem Insertion.ids_of_ne {playerIndex other : PlayerIndex} {position : Nat}
    {emo : BattleEmo} {before after : St env}
    (inserted : Insertion env playerIndex position emo before after)
    (different : other ≠ playerIndex) : after.boards.ids other = before.boards.ids other := by
  rw [BattleBoards.ids, inserted.boards, BattleBoards.getBoard_setBoard_of_ne different]
  rfl

theorem Removal.ids_eq {playerIndex : PlayerIndex} {position : Nat} {before after : St env}
    (removed : Removal env playerIndex position before after) :
    after.boards.ids playerIndex = (before.boards.ids playerIndex).eraseIdx position := by
  rw [BattleBoards.ids, removed.boards, BattleBoards.getBoard_setBoard, ← List.eraseIdx_map]
  rfl

theorem Removal.ids_of_ne {playerIndex other : PlayerIndex} {position : Nat}
    {before after : St env} (removed : Removal env playerIndex position before after)
    (different : other ≠ playerIndex) : after.boards.ids other = before.boards.ids other := by
  rw [BattleBoards.ids, removed.boards, BattleBoards.getBoard_setBoard_of_ne different]
  rfl

/-- The entry of `get_board_abilities` that a task executes: the board, the
index, and the id of the emo that contributed the entry. -/
def Task.entry? : Task → Option (PlayerIndex × Nat × Nat)
  | .callAbilityNormalActionAsOneself playerIndex _ actionEmoIndex _ (some ownerId) =>
      some (playerIndex, actionEmoIndex, ownerId)
  | .callAbilityGeneralAsAllyAction playerIndex _ _ _ oneselfEmoIndex ownerId =>
      some (playerIndex, oneselfEmoIndex, ownerId)
  | .callShieldRemovedAbilityOf playerIndex _ emoIndex _ _ ownerId =>
      some (playerIndex, emoIndex, ownerId)
  | _ => none

/-- The attack that a task finishes: the attacker's board, its index when it
attacked, and its id. -/
def Task.attacker? : Task → Option (PlayerIndex × Nat × Nat)
  | .attackDamageCounter attackPlayerIndex attackEmoIndex _ attackEmoId =>
      some (attackPlayerIndex, attackEmoIndex, attackEmoId)
  | .countAttackAndSurvived attackPlayerIndex attackEmoIndex attackEmoId =>
      some (attackPlayerIndex, attackEmoIndex, attackEmoId)
  | _ => none

/-! ## Entries of the snapshot loops -/

/-- Every waiting entry stands at its index. -/
def EntriesStand (config : Config Task (St env)) : Prop :=
  ∀ task ∈ config.stack, ∀ playerIndex emoIndex ownerId,
    task.entry? = some (playerIndex, emoIndex, ownerId) →
      Stands (config.state.boards.ids playerIndex) emoIndex ownerId

/-- A step whose insertion or removal leaves the index of every entry that
waits below the performed task in place. -/
structure KeepsEntries (before after : Config Task (St env)) : Prop where
  insertion : ∀ playerIndex position emo,
    Insertion env playerIndex position emo before.state after.state →
    ∀ task ∈ before.stack.tail, ∀ emoIndex ownerId,
      task.entry? = some (playerIndex, emoIndex, ownerId) →
        KeptByInsertion (before.state.boards.ids playerIndex) position emo.id emoIndex ownerId
  removal : ∀ playerIndex position,
    Removal env playerIndex position before.state after.state →
    ∀ task ∈ before.stack.tail, ∀ emoIndex ownerId,
      task.entry? = some (playerIndex, emoIndex, ownerId) →
        KeptByRemoval (before.state.boards.ids playerIndex) position emoIndex ownerId

/-- A step keeps the entries if none waits. -/
theorem keepsEntries_of_none {before after : Config Task (St env)}
    (free : ∀ task ∈ before.stack.tail, task.entry? = none) : KeepsEntries before after where
  insertion _ _ _ _ task member _ _ entry := by
    rw [free task member] at entry
    cases entry
  removal _ _ _ task member _ _ entry := by
    rw [free task member] at entry
    cases entry

theorem stands_of_mem_getBoardAbilities {boards : BattleBoards} {playerIndex : PlayerIndex}
    {entry : BoardAbility} (member : entry ∈ boards.getBoardAbilities playerIndex) :
    Stands (boards.ids playerIndex) entry.emoIndex entry.ownerId := by
  obtain ⟨emo, found, owner, _⟩ := boards.mem_getBoardAbilities member
  refine .of_getElem? ?_
  rw [BattleBoards.ids_getElem?, found, Option.map_some, owner]

/-- New entries stand at their index when they start to wait. -/
theorem Origin.stands {task call : Task} {before after : St env}
    (origin : Origin env task before after call) {playerIndex : PlayerIndex}
    {emoIndex ownerId : Nat} (entry : call.entry? = some (playerIndex, emoIndex, ownerId)) :
    Stands (after.boards.ids playerIndex) emoIndex ownerId := by
  cases origin with
  | asOneself member =>
      cases entry
      exact stands_of_mem_getBoardAbilities member
  | asAlly member =>
      cases entry
      exact stands_of_mem_getBoardAbilities member
  | shieldRemoved member =>
      cases entry
      exact stands_of_mem_getBoardAbilities member
  | _ => cases entry

/-- One step: the waiting entries go on standing exactly when the step leaves
them in place. -/
theorem entriesStand_step_iff {task : Task} {rest calls : List Task} {state after : St env}
    (before : EntriesStand ⟨task :: rest, state⟩)
    (performed : perform env task state = .ok (calls, after)) :
    EntriesStand ⟨calls ++ rest, after⟩ ↔
      KeepsEntries ⟨task :: rest, state⟩ ⟨calls ++ rest, after⟩ := by
  have waiting : ∀ {other playerIndex emoIndex ownerId}, other ∈ rest →
      other.entry? = some (playerIndex, emoIndex, ownerId) →
      Stands (state.boards.ids playerIndex) emoIndex ownerId :=
    fun member entry => before _ (List.mem_cons_of_mem _ member) _ _ _ entry
  constructor
  · intro stand
    constructor
    · intro playerIndex position emo inserted other member emoIndex ownerId entry
      have kept := stand other (List.mem_append_right _ member) _ _ _ entry
      rw [inserted.ids_eq] at kept
      exact (stands_insertIdx_iff (by simpa using inserted.bound) (waiting member entry)).mp kept
    · intro playerIndex position removed other member emoIndex ownerId entry
      have kept := stand other (List.mem_append_right _ member) _ _ _ entry
      rw [removed.ids_eq] at kept
      exact (stands_eraseIdx_iff (waiting member entry)).mp kept
  · intro keeps other member playerIndex emoIndex ownerId entry
    obtain ⟨effect, origin⟩ := perform_performs performed
    rcases List.mem_append.mp member with new | old
    · exact (origin other new).stands entry
    · cases effect with
      | update update =>
          rw [update.boards.ids_eq]
          exact waiting old entry
      | noRoom boards _ =>
          rw [boards]
          exact waiting old entry
      | @insertion player position emo inserted =>
          by_cases same : playerIndex = player
          · subst same
            rw [inserted.ids_eq]
            exact (stands_insertIdx_iff (by simpa using inserted.bound)
              (waiting old entry)).mpr
                (keeps.insertion _ _ _ inserted other old emoIndex ownerId entry)
          · rw [inserted.ids_of_ne same]
            exact waiting old entry
      | @removal player position removed =>
          by_cases same : playerIndex = player
          · subst same
            rw [removed.ids_eq]
            exact (stands_eraseIdx_iff (waiting old entry)).mpr
              (keeps.removal _ _ removed other old emoIndex ownerId entry)
          · rw [removed.ids_of_ne same]
            exact waiting old entry

/-- The entries for abilities as oneself are not those of retired emos. -/
def ActsItself (config : Config Task (St env)) : Prop :=
  ∀ task ∈ config.stack, ∀ playerIndex action emoIndex retiredActionEmoOpt ownerId,
    task = .callAbilityNormalActionAsOneself playerIndex action emoIndex retiredActionEmoOpt
      (some ownerId) → retiredActionEmoOpt = none

theorem ActsItself.step {task : Task} {rest calls : List Task} {state after : St env}
    (before : ActsItself ⟨task :: rest, state⟩)
    (performed : perform env task state = .ok (calls, after)) :
    ActsItself ⟨calls ++ rest, after⟩ := by
  intro call member playerIndex action emoIndex retiredActionEmoOpt ownerId same
  rcases List.mem_append.mp member with new | old
  · have origin := (perform_performs performed).origin call new
    subst same
    cases origin
    rfl
  · exact before call (List.mem_cons_of_mem _ old) _ _ _ _ _ same

/-- The owner of an ability performs the action itself: with its own triple
flag, and an action on oneself changes it alone. -/
structure ActedBy (env : Env) (playerIndex : PlayerIndex) (action : NormalAction) (emoIndex : Nat)
    (owner : BattleEmo) (state : St env) (calls : List Task) (after : St env) : Prop where
  performed : callAbilityNormalAction env playerIndex action emoIndex none
    owner.attributes.isTriple state = .ok (calls, after)
  oneself : ∀ changed, actedOnOneself state.boards playerIndex emoIndex owner action =
    some changed →
      calls = [] ∧ after.boards = state.boards.setEmo playerIndex emoIndex changed

/-- An entry is executed for its owner.  An action as ally is performed by the
ally, and takes the triple flag of the owner. -/
def ExecutedFor (env : Env) (owner : BattleEmo) (state : St env) (calls : List Task)
    (after : St env) : Task → Prop
  | .callAbilityNormalActionAsOneself playerIndex action emoIndex _ _ =>
      ActedBy env playerIndex action emoIndex owner state calls after
  | .callShieldRemovedAbilityOf playerIndex action emoIndex excludesSameBase
      shieldRemovedEmoBaseId _ =>
      if excludesSameBase ∧ shieldRemovedEmoBaseId = owner.baseId then calls = [] ∧ after = state
      else ActedBy env playerIndex action emoIndex owner state calls after
  | .callAbilityGeneralAsAllyAction playerIndex (.oneselfTripleNormal action) allyEmoIndex
      retiredAllyEmoOpt _ _ =>
      callAbilityNormalAction env playerIndex action allyEmoIndex retiredAllyEmoOpt
        owner.attributes.isTriple state = .ok (calls, after)
  | .callAbilityGeneralAsAllyAction playerIndex (.custom .triggerRetireActions) allyEmoIndex
      retiredAllyEmoOpt _ _ =>
      after = state ∧ ∃ allyEmo abilities,
        getActionEmo env playerIndex allyEmoIndex retiredAllyEmoOpt state = .ok allyEmo ∧
        allyEmo.getAbilities = .ok abilities ∧
        calls = (abilities.filterMap fun (_, ability) => retireAction? ability).flatMap
          fun action => List.replicate (if owner.attributes.isTriple then 2 else 1)
            (.callAbilityNormalActionAsOneself playerIndex action allyEmoIndex
              retiredAllyEmoOpt none)
  | _ => False

theorem actedBy_of_performed {playerIndex : PlayerIndex} {action : NormalAction} {emoIndex : Nat}
    {owner : BattleEmo} {state after : St env} {calls : List Task}
    (found : state.boards.getEmo playerIndex emoIndex = .ok owner)
    (performed : callAbilityNormalActionAsOneself env playerIndex action emoIndex none state =
      .ok (calls, after)) :
    ActedBy env playerIndex action emoIndex owner state calls after := by
  simp only [callAbilityNormalActionAsOneself, getActionEmo, Result.bind_eq_ok_iff] at performed
  obtain ⟨_, standing, performed⟩ := performed
  rw [found] at standing
  cases standing
  exact ⟨performed, fun changed changes =>
    callAbilityNormalAction_oneself (BattleBoards.getEmo_eq_ok_iff.mp found) changes performed⟩

/-- The emo of an entry has to stand at its index. -/
theorem entry_found {task : Task} {playerIndex : PlayerIndex} {emoIndex ownerId : Nat}
    {state after : St env} {calls : List Task}
    (acts : ActsItself (⟨[task], state⟩ : Config Task (St env)))
    (entry : task.entry? = some (playerIndex, emoIndex, ownerId))
    (performed : perform env task state = .ok (calls, after)) :
    ∃ owner, state.boards.getEmo playerIndex emoIndex = .ok owner := by
  unfold Task.entry? at entry
  split at entry
  · cases entry
    cases acts _ List.mem_cons_self _ _ _ _ _ rfl
    simp only [perform, callAbilityNormalActionAsOneself, getActionEmo,
      Result.bind_eq_ok_iff] at performed
    obtain ⟨owner, found, _⟩ := performed
    exact ⟨owner, found⟩
  · rename_i action _ _ _ _
    cases entry
    cases action with
    | oneselfTripleNormal action =>
        simp only [perform, callAbilityGeneralAsAllyAction, Result.bind_eq_ok_iff] at performed
        obtain ⟨owner, found, _⟩ := performed
        exact ⟨owner, found⟩
    | custom action =>
        cases action
        simp only [perform, callAbilityGeneralAsAllyAction, callAbilityAsAllyAction,
          Result.bind_eq_ok_iff] at performed
        obtain ⟨_, _, owner, found, _⟩ := performed
        exact ⟨owner, found⟩
  · cases entry
    simp only [perform, callShieldRemovedAbilityOf, callAbilityNormalActionAsOneself,
      getActionEmo] at performed
    split at performed
    all_goals
      simp only [Result.bind_eq_ok_iff] at performed
      obtain ⟨owner, found, _⟩ := performed
      exact ⟨owner, found⟩
  · cases entry

/-- An entry whose owner stands at its index is executed for the owner. -/
theorem executedFor_of_performed {task : Task} {playerIndex : PlayerIndex}
    {emoIndex ownerId : Nat} {owner : BattleEmo} {state after : St env} {calls : List Task}
    (acts : ActsItself (⟨[task], state⟩ : Config Task (St env)))
    (entry : task.entry? = some (playerIndex, emoIndex, ownerId))
    (found : state.boards.getEmo playerIndex emoIndex = .ok owner)
    (performed : perform env task state = .ok (calls, after)) :
    ExecutedFor env owner state calls after task := by
  unfold Task.entry? at entry
  split at entry
  · cases entry
    cases acts _ List.mem_cons_self _ _ _ _ _ rfl
    exact actedBy_of_performed found performed
  · rename_i action _ _ _ _
    cases entry
    cases action with
    | oneselfTripleNormal action =>
        simp only [perform, callAbilityGeneralAsAllyAction, Result.bind_eq_ok_iff] at performed
        obtain ⟨_, standing, performed⟩ := performed
        rw [found] at standing
        cases standing
        exact performed
    | custom action =>
        cases action
        simp only [perform, callAbilityGeneralAsAllyAction, callAbilityAsAllyAction,
          Result.bind_eq_ok_iff, Result.pure_eq_ok_iff, Prod.mk.injEq] at performed
        obtain ⟨allyEmo, ally, _, standing, abilities, listed, rfl, rfl⟩ := performed
        rw [found] at standing
        cases standing
        refine ⟨rfl, allyEmo, abilities, ally, listed, ?_⟩
        rw [List.filterMap_eq_flatMap_toList, List.flatMap_assoc]
        refine List.flatMap_congr fun entry _ => ?_
        cases retires : retireAction? entry.2 with
        | some action => simp only [retires, Option.toList_some, List.flatMap_singleton]
        | none => simp only [retires, Option.toList_none, List.flatMap_nil]
  · rename_i excludesSameBase shieldRemovedEmoBaseId _
    cases entry
    simp only [perform, callShieldRemovedAbilityOf] at performed
    dsimp only [ExecutedFor]
    cases excludesSameBase with
    | false =>
        rw [if_neg (by simp)]
        exact actedBy_of_performed found performed
    | true =>
        simp only [if_true, Result.bind_eq_ok_iff] at performed
        obtain ⟨_, standing, performed⟩ := performed
        rw [found] at standing
        cases standing
        split at performed
        · rename_i same
          cases performed
          rw [if_pos ⟨rfl, same⟩]
          exact ⟨rfl, rfl⟩
        · rename_i other
          rw [if_neg fun both => other both.2]
          exact actedBy_of_performed found performed
  · cases entry

/-- In a run whose steps leave the waiting entries in place, every entry is
executed on the emo that contributed it, and for it. -/
theorem entry_executed_on_owner {stack rest calls : List Task} {start state after : St env}
    {task : Task} {playerIndex : PlayerIndex} {emoIndex ownerId : Nat}
    (fresh : ∀ task ∈ stack, task.entry? = none)
    (reached : GuardedReaches (perform env) KeepsEntries ⟨stack, start⟩ ⟨task :: rest, state⟩)
    (entry : task.entry? = some (playerIndex, emoIndex, ownerId))
    (performed : perform env task state = .ok (calls, after)) :
    ∃ owner, state.boards.getEmo playerIndex emoIndex = .ok owner ∧ owner.id = ownerId ∧
      ExecutedFor env owner state calls after task := by
  have initial : EntriesStand (⟨stack, start⟩ : Config Task (St env)) := by
    intro task member playerIndex emoIndex ownerId entry
    rw [fresh task member] at entry
    cases entry
  have stand := reached.invariant
    (fun before performed keeps => (entriesStand_step_iff before performed).mpr keeps) initial
  have acting : ActsItself (⟨stack, start⟩ : Config Task (St env)) := by
    rintro task member _ _ _ _ _ rfl
    cases fresh _ member
  have acts := reached.reaches.invariant ActsItself.step acting
  have alone : ActsItself (⟨[task], state⟩ : Config Task (St env)) := fun other member =>
    acts other (List.mem_singleton.mp member ▸ List.mem_cons_self)
  obtain ⟨owner, found⟩ := entry_found alone entry performed
  refine ⟨owner, found, ?_, executedFor_of_performed alone entry found performed⟩
  refine stand task List.mem_cons_self _ _ _ entry owner.id ?_
  rw [BattleBoards.ids_getElem?, BattleBoards.getEmo_eq_ok_iff.mp found, Option.map_some]

/-- The next task executes an entry on another emo than the one that
contributed it, and changes that emo. -/
def misdirected (config : Config Task (St env)) : Bool :=
  match config.stack with
  | [] => false
  | task :: _ =>
      match task.entry?, perform env task config.state with
      | some (playerIndex, emoIndex, ownerId), .ok (_, after) =>
          (config.state.getBoard playerIndex)[emoIndex]?.any fun emo =>
            emo.id ≠ ownerId ∧ (after.getBoard playerIndex)[emoIndex]? ≠ some emo
      | _, _ => false

def strengthenBase : Base where
  id := 0
  typ := .human
  grade := 1
  attack := 1
  health := 1
  abilities := [.battle (.general (.asOneself .pre (.increaseStats (.target .oneself) 1 1)))]

def companionBase : Base where
  id := 1
  typ := .human
  grade := 1
  attack := 1
  health := 1
  abilities := [.battle (.general (.asOneself .pre (.setEmo .ally 0)))]

def companionEnv : Env where
  emoBases id :=
    if id = 0 then some strengthenBase else if id = 1 then some companionBase else none
  sampler := .first

/-- The left emo sets an emo between itself and the right one. -/
def companionState : St companionEnv where
  boards := {
    board0 := [.newWithBase 0 companionBase false, .newWithBase 1 strengthenBase false]
    board1 := [.newWithBase 2 strengthenBase false] }
  logs := []
  rng := ()
  generatedIds := 3

/-- The pre ability of the right emo is executed on the emo that the left one
has just set. -/
theorem entry_executed_on_another :
    ∃ last, Reaches (perform companionEnv) ⟨callPreAbilities .zero, companionState⟩ last ∧
      misdirected last :=
  exists_reached_of_advance 2 (by decide +kernel)

/-- With the other side first, its entry raises the emo that has the ability. -/
theorem entry_executed_on_owner_companionState :
    ∃ owner calls after, companionState.boards.getEmo .one 0 = .ok owner ∧ owner.id = 2 ∧
      perform companionEnv (.callAbilityNormalActionAsOneself .one
        (.increaseStats (.target .oneself) 1 1) 0 none (some 2)) companionState =
          .ok (calls, after) ∧
      after.boards = companionState.boards.setEmo .one 0 (owner.raised 1 1) := by
  have step : Step (perform companionEnv) ⟨callPreAbilities .one, companionState⟩
      ⟨_ ++ [.callPreAbilitiesOf .zero], companionState⟩ := .call rfl
  have reached := GuardedReaches.single KeepsEntries step
    (keepsEntries_of_none fun task member => by
      rw [List.mem_singleton.mp member]
      rfl)
  obtain ⟨owner, found, same, executed⟩ :=
    entry_executed_on_owner (by decide) reached rfl rfl
  exact ⟨owner, _, _, found, same, rfl, (executed.oneself _ rfl).2⟩

/-! ## Counter damage -/

/-- A step that leaves the attacker of a waiting `attack_damage` in place. -/
structure KeepsAttacker (before after : Config Task (St env)) : Prop where
  insertion : ∀ playerIndex position emo,
    Insertion env playerIndex position emo before.state after.state →
    ∀ task ∈ before.stack.tail, ∀ emoIndex emoId,
      task.attacker? = some (playerIndex, emoIndex, emoId) →
        (emoIndex < position ∨ (before.state.getBoard playerIndex).length < emoIndex) ∧
          emo.id ≠ emoId
  removal : ∀ playerIndex position,
    Removal env playerIndex position before.state after.state →
    ∀ task ∈ before.stack.tail, ∀ emoIndex emoId,
      task.attacker? = some (playerIndex, emoIndex, emoId) →
        emoIndex < position ∨ (before.state.getBoard playerIndex).length ≤ emoIndex ∨
          (position = emoIndex ∧ (before.state.getBoard playerIndex).length = emoIndex + 1)

/-- What is waiting belongs to the attack of `attackEmo`, and the index of the
attack finds it or nothing. -/
structure AttackPending (attackPlayerIndex : PlayerIndex) (attackEmoIndex : Nat)
    (attackEmo defenseEmo : BattleEmo) (config : Config Task (St env)) : Prop where
  cascade : ∀ task ∈ config.stack, task.isCascade
  attacker : ∀ task ∈ config.stack, ∀ playerIndex emoIndex emoId,
    task.attacker? = some (playerIndex, emoIndex, emoId) →
      playerIndex = attackPlayerIndex ∧ emoIndex = attackEmoIndex ∧ emoId = attackEmo.id ∧
        Locates (config.state.boards.ids attackPlayerIndex) attackEmoIndex attackEmo.id
  damage : ∀ playerIndex emoIndex damage emoId,
    .attackDamageCounter playerIndex emoIndex damage emoId ∈ config.stack →
      damage = defenseEmo.attributes.attack

variable {attackPlayerIndex : PlayerIndex} {attackEmoIndex defenseEmoIndex : Nat}
variable {attackEmo defenseEmo : BattleEmo}

/-- Damaging the defender leaves the attacker's board alone. -/
theorem attackPending_of_attackDamage {state after : St env} {calls : List Task}
    (distinct : (state.boards.ids attackPlayerIndex).Nodup)
    (attacks : (state.getBoard attackPlayerIndex)[attackEmoIndex]? = some attackEmo)
    (defends : (state.getBoard (switchPlayerIndex attackPlayerIndex))[defenseEmoIndex]? =
      some defenseEmo)
    (performed : perform env (.attackDamage attackPlayerIndex attackEmoIndex defenseEmoIndex)
      state = .ok (calls, after)) :
    AttackPending attackPlayerIndex attackEmoIndex attackEmo defenseEmo ⟨calls, after⟩ := by
  obtain ⟨_, origin⟩ := perform_performs performed
  refine ⟨fun call member => ?_, fun call member playerIndex emoIndex emoId attacker => ?_,
    fun playerIndex emoIndex damage emoId member => ?_⟩
  · cases origin call member with
    | attackDamage attacks => cases attacks
    | marchLoop marches =>
        rcases marches with marches | ⟨_, marches⟩ <;> cases marches
    | marchAttack marches => cases marches
    | marchNext marches => cases marches
    | _ => rfl
  · cases origin call member with
    | counter same found _ undisturbed =>
        cases same
        cases attacker
        rw [attacks] at found
        cases found
        refine ⟨rfl, rfl, rfl, ?_⟩
        have same : after.boards.ids attackPlayerIndex = state.boards.ids attackPlayerIndex :=
          congrArg (List.map BattleEmo.id) undisturbed
        rw [same]
        refine .of_getElem? distinct ?_
        rw [BattleBoards.ids_getElem?, attacks, Option.map_some]
    | count same => cases same
    | _ => cases attacker
  · cases origin _ member with
    | counter same _ defended =>
        cases same
        rw [defends] at defended
        cases defended
        rfl

theorem AttackPending.step {task : Task} {rest calls : List Task} {state after : St env}
    (pending : AttackPending attackPlayerIndex attackEmoIndex attackEmo defenseEmo
      ⟨task :: rest, state⟩)
    (performed : perform env task state = .ok (calls, after))
    (keeps : KeepsAttacker ⟨task :: rest, state⟩ ⟨calls ++ rest, after⟩) :
    AttackPending attackPlayerIndex attackEmoIndex attackEmo defenseEmo
      ⟨calls ++ rest, after⟩ := by
  obtain ⟨effect, origin⟩ := perform_performs performed
  have cascade : task.isCascade := pending.cascade task List.mem_cons_self
  refine ⟨fun call member => ?_, fun call member playerIndex emoIndex emoId attacker => ?_,
    fun playerIndex emoIndex damage emoId member => ?_⟩
  · rcases List.mem_append.mp member with new | old
    · exact (origin call new).isCascade cascade
    · exact pending.cascade call (List.mem_cons_of_mem _ old)
  · rcases List.mem_append.mp member with new | old
    · cases origin call new with
      | counter same => simp [same, Task.isCascade] at cascade
      | count same update =>
          cases same
          cases attacker
          obtain ⟨rfl, rfl, rfl, located⟩ :=
            pending.attacker _ List.mem_cons_self _ _ _ rfl
          refine ⟨rfl, rfl, rfl, ?_⟩
          rwa [update.boards.ids_eq]
      | _ => cases attacker
    · obtain ⟨rfl, rfl, rfl, located⟩ :=
        pending.attacker call (List.mem_cons_of_mem _ old) _ _ _ attacker
      refine ⟨rfl, rfl, rfl, ?_⟩
      cases effect with
      | update update => rwa [update.boards.ids_eq]
      | noRoom boards _ => rwa [boards]
      | @insertion player position emo inserted =>
          by_cases same : playerIndex = player
          · subst same
            obtain ⟨kept, fresh⟩ := keeps.insertion _ _ _ inserted call old _ _ attacker
            rw [inserted.ids_eq]
            exact located.insertIdx (by simpa using inserted.bound) (by simpa using kept) fresh
          · rwa [inserted.ids_of_ne same]
      | @removal player position removed =>
          by_cases same : playerIndex = player
          · subst same
            have kept := keeps.removal _ _ removed call old _ _ attacker
            rw [removed.ids_eq]
            exact located.eraseIdx (by simpa using kept)
          · rwa [removed.ids_of_ne same]
  · rcases List.mem_append.mp member with new | old
    · cases origin _ new with
      | counter same => simp [same, Task.isCascade] at cascade
    · exact pending.damage _ _ _ _ (List.mem_cons_of_mem _ old)

/-- What the rest of `attack_damage` does to the attacker: the defender's attack
hits it, and it is counted if it survives. -/
def Countered (defenseEmo : BattleEmo) (playerIndex : PlayerIndex) (emoIndex : Nat)
    (attackEmo : BattleEmo) (state : St env) (calls : List Task) (after : St env) : Task → Prop
  | .attackDamageCounter .. =>
      after.boards = state.boards.replace playerIndex emoIndex
        (attackEmo.hit defenseEmo.attributes.attack) ∧
      (.countAttackAndSurvived playerIndex emoIndex attackEmo.id ∈ calls ↔
        (attackEmo.hit defenseEmo.attributes.attack).isSome)
  | .countAttackAndSurvived .. =>
      calls = [] ∧ after.boards = state.boards.setEmo playerIndex emoIndex
        { attackEmo with attackAndSurvivedCount := attackEmo.attackAndSurvivedCount + 1 }
  | _ => False

/-- The emo that takes the counter damage and the count is the one at the index
of the attack. -/
theorem countered_of_performed {task : Task} {playerIndex : PlayerIndex} {emoIndex : Nat}
    {emo : BattleEmo} {state after : St env} {calls : List Task}
    (attacker : task.attacker? = some (playerIndex, emoIndex, emo.id))
    (damage : ∀ damage, task = .attackDamageCounter playerIndex emoIndex damage emo.id →
      damage = defenseEmo.attributes.attack)
    (found : (state.getBoard playerIndex)[emoIndex]? = some emo)
    (performed : perform env task state = .ok (calls, after)) :
    Countered defenseEmo playerIndex emoIndex emo state calls after task := by
  unfold Task.attacker? at attacker
  split at attacker
  · cases attacker
    cases damage _ rfl
    have within := (List.getElem?_eq_some_iff.mp found).1
    rcases attackDamageCounter_cases performed with
      ⟨outside, _⟩ | ⟨survived, made, _, damaged, rfl⟩
    · exact absurd within (Nat.not_lt.mpr outside)
    · obtain ⟨boards, survives⟩ := damageEmo_hit found damaged
      refine ⟨boards, ?_⟩
      rw [← survives]
      cases survived with
      | true => simp
      | false =>
          obtain ⟨_, _, origin⟩ := damageEmo_cases damaged
          refine iff_of_false (fun member => ?_) Bool.false_ne_true
          rw [if_neg Bool.false_ne_true, List.append_nil] at member
          cases origin (.marchBegin ⟨0, .zero⟩) _ member with
          | count attacks => cases attacks
  · cases attacker
    obtain ⟨_, standing, rfl, rfl⟩ := countAttackAndSurvived_cases performed
    rw [found] at standing
    cases standing
    exact ⟨rfl, rfl⟩
  · cases attacker

/-- An attack without an attacker left ends without counter damage and cannot
count anyone. -/
theorem nothing_of_performed {task : Task} {playerIndex : PlayerIndex} {emoIndex emoId : Nat}
    {state after : St env} {calls : List Task}
    (attacker : task.attacker? = some (playerIndex, emoIndex, emoId))
    (missing : (state.getBoard playerIndex).length ≤ emoIndex)
    (performed : perform env task state = .ok (calls, after)) : calls = [] ∧ after = state := by
  unfold Task.attacker? at attacker
  split at attacker
  · cases attacker
    rcases attackDamageCounter_cases performed with ⟨_, rfl, rfl⟩ | ⟨_, _, within, _⟩
    · exact ⟨rfl, rfl⟩
    · exact absurd within (Nat.not_lt.mpr missing)
  · cases attacker
    obtain ⟨_, standing, _⟩ := countAttackAndSurvived_cases performed
    exact absurd (List.getElem?_eq_some_iff.mp standing).1 (Nat.not_lt.mpr missing)
  · cases attacker

/-- Every attack that returns comes to its counter damage.  In a run whose steps
leave a waiting attacker in place, the counter damage and the count change the
attacker at whatever index a search finds it, and nobody if it is gone. -/
theorem counter_hits_attacker {start : St env}
    (distinct : (start.boards.ids attackPlayerIndex).Nodup)
    (attacks : start.boards.getEmo attackPlayerIndex attackEmoIndex = .ok attackEmo)
    (defends : start.boards.getEmo (switchPlayerIndex attackPlayerIndex) defenseEmoIndex =
      .ok defenseEmo) :
    (∀ final, Returns (perform env)
        ⟨[.attackDamage attackPlayerIndex attackEmoIndex defenseEmoIndex], start⟩ final →
      ∃ state, Reaches (perform env)
        ⟨[.attackDamage attackPlayerIndex attackEmoIndex defenseEmoIndex], start⟩
        ⟨[.attackDamageCounter attackPlayerIndex attackEmoIndex defenseEmo.attributes.attack
          attackEmo.id], state⟩) ∧
    ∀ task rest state calls after, GuardedReaches (perform env) KeepsAttacker
        ⟨[.attackDamage attackPlayerIndex attackEmoIndex defenseEmoIndex], start⟩
        ⟨task :: rest, state⟩ →
      task.attacker?.isSome → perform env task state = .ok (calls, after) →
      match state.boards.findEmoIndexById attackPlayerIndex attackEmo.id with
      | some emoIndex => ∃ emo, state.boards.getEmo attackPlayerIndex emoIndex = .ok emo ∧
          emo.id = attackEmo.id ∧
          Countered defenseEmo attackPlayerIndex emoIndex emo state calls after task
      | none => calls = [] ∧ after = state := by
  rw [BattleBoards.getEmo_eq_ok_iff] at attacks defends
  constructor
  · intro final returned
    obtain ⟨calls, middle, performed, rest⟩ := returned.cons_inv
    have first : Step (perform env)
        ⟨[.attackDamage attackPlayerIndex attackEmoIndex defenseEmoIndex], start⟩
        ⟨calls ++ [], middle⟩ := .call performed
    obtain ⟨attacker, defender, survived, made, found, defended, _, rfl⟩ :=
      attackDamage_cases performed
    rw [attacks] at found
    rw [defends] at defended
    cases found
    cases defended
    rw [List.append_nil] at rest first
    obtain ⟨state, below⟩ := rest.reaches_below
    exact ⟨state, Relation.ReflTransGen.head first below⟩
  · intro task rest state calls after reached waits performed
    obtain ⟨⟨playerIndex, emoIndex, emoId⟩, attacker⟩ := Option.isSome_iff_exists.mp waits
    have pending : AttackPending attackPlayerIndex attackEmoIndex attackEmo defenseEmo
        (⟨task :: rest, state⟩ : Config Task (St env)) := by
      rcases Relation.ReflTransGen.cases_head reached with same | ⟨next, ⟨step, _⟩, reached⟩
      · cases same
        cases attacker
      · cases step with
        | @call _ _ calls _ after performed =>
            have initial := attackPending_of_attackDamage distinct attacks defends performed
            rw [← List.append_nil calls] at initial
            exact GuardedReaches.invariant AttackPending.step reached initial
    obtain ⟨rfl, rfl, rfl, located⟩ :=
      pending.attacker task List.mem_cons_self _ _ _ attacker
    have search : state.boards.findEmoIndexById playerIndex attackEmo.id =
        if emoIndex < (state.getBoard playerIndex).length then some emoIndex else none := by
      unfold Locates BattleBoards.ids at located
      rw [List.findIdx?_map, List.length_map] at located
      exact located
    rw [search]
    rcases Nat.lt_or_ge emoIndex (state.getBoard playerIndex).length with within | missing
    · rw [if_pos within]
      have found := List.getElem?_eq_getElem within
      have owner := located.getElem?_eq (by simpa using within)
      rw [BattleBoards.ids_getElem?, found, Option.map_some, Option.some.injEq] at owner
      refine ⟨_, BattleBoards.getEmo_eq_ok_iff.mpr found, owner, ?_⟩
      rw [← owner] at attacker
      refine countered_of_performed attacker (fun damage same => ?_) found performed
      rw [owner] at same
      subst same
      exact pending.damage _ _ _ _ List.mem_cons_self
    · rw [if_neg (Nat.not_lt.mpr missing)]
      exact nothing_of_performed attacker missing performed

/-- The attacker of the next task has left its board, and the task changes the
boards all the same. -/
def hitsAnother (config : Config Task (St env)) : Bool :=
  match config.stack with
  | [] => false
  | task :: _ =>
      match task.attacker?, perform env task config.state with
      | some (playerIndex, _, emoId), .ok (_, after) =>
          config.state.boards.findEmoIndexById playerIndex emoId = none ∧
            after.boards ≠ config.state.boards
      | _, _ => false

def bystanderBase : Base where
  id := 0
  typ := .human
  grade := 1
  attack := 1
  health := 9
  abilities := []

/-- An emo that damages the whole rival board when it retires. -/
def revengeBase : Base where
  id := 1
  typ := .human
  grade := 1
  attack := 1
  health := 1
  abilities := [.battle (.general (.asOneself .retire (.damageAll .rival 1)))]

/-- An emo that attacks harder when it loses its shield. -/
def shieldedBase : Base where
  id := 2
  typ := .human
  grade := 1
  attack := 1
  health := 1
  abilities := [.battle (.special .shield),
    .battle (.general (.asOneself (.allyBattleAbilityRemoved {} false (.special .shield))
      (.increaseStats (.target .oneself) 2 0)))]

def revengeEnv : Env where
  emoBases id :=
    if id = 0 then some bystanderBase
    else if id = 1 then some revengeBase
    else if id = 2 then some shieldedBase else none
  sampler := .first

/-- The attacker has one health left and a companion on its right. -/
def revengeState : St revengeEnv where
  boards := {
    board0 := [.newWithAttributes 0 bystanderBase
      { attack := 1, health := 1, abilities := [], isTriple := false },
      .newWithBase 1 bystanderBase false]
    board1 := [.newWithBase 2 revengeBase false] }
  logs := []
  rng := ()
  generatedIds := 3

/-- The defender retires and takes the attacker with it; the counter damage
then hits the attacker's right neighbour. -/
theorem counter_hits_bystander :
    (∀ playerIndex, (revengeState.boards.ids playerIndex).Nodup) ∧
      ∃ last, Reaches (perform revengeEnv) ⟨[.attackDamage .zero 0 0], revengeState⟩ last ∧
        hitsAnother last := by
  refine ⟨fun playerIndex => by cases playerIndex <;> decide, ?_⟩
  exact exists_reached_of_advance 8 (by decide +kernel)

/-- One emo attacks another that has a shield. -/
def shieldedState : St revengeEnv where
  boards := {
    board0 := [.newWithBase 0 bystanderBase false]
    board1 := [.newWithBase 1 shieldedBase false] }
  logs := []
  rng := ()
  generatedIds := 2

/-- A step that neither adds nor removes an emo keeps the attacker. -/
theorem keepsAttacker_of_lengths {before after : Config Task (St env)}
    (same : ∀ playerIndex, (after.state.getBoard playerIndex).length =
      (before.state.getBoard playerIndex).length) : KeepsAttacker before after where
  insertion playerIndex position emo inserted := by
    have longer := same playerIndex
    rw [BattleState.getBoard, inserted.boards, BattleBoards.getBoard_setBoard,
      List.length_insertIdx_of_le_length inserted.bound] at longer
    omega
  removal playerIndex position removed := by
    have shorter := same playerIndex
    have bound := removed.bound
    rw [BattleState.getBoard, removed.boards, BattleBoards.getBoard_setBoard,
      List.length_eraseIdx_of_lt bound] at shorter
    omega

/-- The defender's ability runs between the blow and the counter damage, which
costs the attacker the attack that the defender had before. -/
theorem counter_hits_attacker_shieldedState :
    ∃ state calls after emo, state.boards.getEmo .zero 0 = .ok emo ∧ emo.id = 0 ∧
      perform revengeEnv (.attackDamageCounter .zero 0 1 0) state = .ok (calls, after) ∧
      after.boards = state.boards.replace .zero 0 (emo.hit 1) := by
  have blow : Step (perform revengeEnv) ⟨[.attackDamage .zero 0 0], shieldedState⟩
      ⟨_ ++ [], _⟩ := .call rfl
  have ability := GuardedReaches.single KeepsAttacker blow
    ⟨fun _ _ _ _ _ member => (nomatch member), fun _ _ _ _ member => nomatch member⟩
  have reached := ability.tail
    ⟨@Step.call _ _ _ _ (Task.callShieldRemovedAbilityOf .one
      (.increaseStats (.target .oneself) 2 0) 0 false 2 1)
      [Task.attackDamageCounter .zero 0 1 0] _ _ _ rfl,
      keepsAttacker_of_lengths fun playerIndex => by cases playerIndex <;> rfl⟩
  obtain ⟨_, hits⟩ := @counter_hits_attacker revengeEnv .zero 0 0 _ _ shieldedState (by decide)
    rfl rfl
  obtain ⟨emo, found, same, boards, _⟩ := hits _ _ _ _ _ reached rfl rfl
  exact ⟨_, _, _, emo, found, same, rfl, boards⟩

end EmojiBattler.Mtc.Battle
