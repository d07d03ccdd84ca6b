import EmojiBattler.Battle.Failures
import EmojiBattler.Battle.Invariant
import EmojiBattler.Battle.Play

/-! # Steps that do not fail

An index is used on a board that may have shrunk since the index was taken.
On steady boards nothing that runs in between takes an emo from the board, so
every index is still in range. -/

namespace EmojiBattler.Mtc.Battle

open EmojiBattler.Emo CallMachine
open EmojiBattler.Emo.Ability (Side)
open EmojiBattler.Emo.Ability.Battle (NormalAction GeneralAsAllyAction)

/-! ## What a task needs and what it may do -/

/-- Performing the task, with all that follows, may make an emo of the player
retire.  The tasks of an attack are counted as such. -/
def Task.Deadly (bases : Bases) (start : BattleBoards) (player : PlayerIndex) : Task → Prop
  | .countAttackAndSurvived .. => False
  | .callAbilityNormalActionAsOneself playerIndex action _ _ _
  | .callShieldRemovedAbilityOf playerIndex action _ _ _ _ =>
      Battle.Deadly bases start player playerIndex action
  | .callAbilityGeneralAsAllyAction playerIndex action _ _ _ _ =>
      ∃ normalAction, ExecutesAsAlly bases start playerIndex action normalAction ∧
        Battle.Deadly bases start player playerIndex normalAction
  | .callEmoRetireBoardAbilities playerIndex _ _ | .callEmoRetireRivalAbilities playerIndex _ =>
      ∃ next, FollowedBy bases start (.retired playerIndex) next ∧
        LeadsToRetirement bases start player next
  | .setEmo playerIndex _ _ _ _ side =>
      LeadsToRetirement bases start player (.set (playerOn playerIndex side))
  | .damageAllEmosOf playerIndex _ _ =>
      LeadsToRetirement bases start player (.retired playerIndex) ∨
        LeadsToRetirement bases start player (.shieldRemoved playerIndex)
  | _ => True

/-- How many emos must stand on the board of the player for the indexes that
the task carries. -/
inductive Task.Needs (bases : Bases) (start : BattleBoards) (player : PlayerIndex) :
    Task → Nat → Prop
  | count {emoIndex emoId : Nat} :
      Needs bases start player (.countAttackAndSurvived player emoIndex emoId) (emoIndex + 1)
  | acting {action : NormalAction} {emoIndex : Nat} {ownerId : Option Nat} :
      Needs bases start player
        (.callAbilityNormalActionAsOneself player action emoIndex none ownerId) (emoIndex + 1)
  | retired {action : NormalAction} {emoIndex : Nat} {emo : BattleEmo} {ownerId : Option Nat}
      (uses : UsesPlace action) :
      Needs bases start player
        (.callAbilityNormalActionAsOneself player action emoIndex (some emo) ownerId) emoIndex
  | oneself {action : GeneralAsAllyAction} {allyEmoIndex oneselfEmoIndex ownerId : Nat}
      {retiredAllyEmoOpt : Option BattleEmo} :
      Needs bases start player (.callAbilityGeneralAsAllyAction player action allyEmoIndex
        retiredAllyEmoOpt oneselfEmoIndex ownerId) (oneselfEmoIndex + 1)
  | ally {action : GeneralAsAllyAction} {allyEmoIndex oneselfEmoIndex ownerId : Nat} :
      Needs bases start player (.callAbilityGeneralAsAllyAction player action allyEmoIndex
        none oneselfEmoIndex ownerId) (allyEmoIndex + 1)
  | retiredAlly {action : GeneralAsAllyAction} {normalAction : NormalAction} {emo : BattleEmo}
      {allyEmoIndex oneselfEmoIndex ownerId : Nat}
      (executes : ExecutesAsAlly bases start player action normalAction)
      (uses : UsesPlace normalAction) :
      Needs bases start player (.callAbilityGeneralAsAllyAction player action allyEmoIndex
        (some emo) oneselfEmoIndex ownerId) allyEmoIndex
  | shieldRemoved {action : NormalAction} {emoIndex baseId ownerId : Nat}
      {excludesSameBase : Bool} :
      Needs bases start player (.callShieldRemovedAbilityOf player action emoIndex
        excludesSameBase baseId ownerId) (emoIndex + 1)
  | board {typAndTriple : Ability.TypOptAndIsTripleOpt} {action : GeneralAsAllyAction}
      {normalAction : NormalAction} {emoIndex : Nat} {emo : BattleEmo}
      (inPlay : InPlay bases start player (.general (.asAlly (.allyRetire typAndTriple) action)))
      (executes : ExecutesAsAlly bases start player action normalAction)
      (uses : UsesPlace normalAction) :
      Needs bases start player (.callEmoRetireBoardAbilities player emoIndex emo) emoIndex
  | set {emoIndex baseId attackAndSurvivedCount : Nat} {isTriple : Bool} :
      Needs bases start player
        (.setEmo player emoIndex baseId isTriple attackAndSurvivedCount .ally) emoIndex

/-- What is above takes nothing away that is needed below. -/
def Spares (bases : Bases) (start : BattleBoards) (player : PlayerIndex) (above below : Task) :
    Prop :=
  ∀ count, below.Needs bases start player count → ¬ above.Deadly bases start player

/-- What a task makes of the board of a player and which calls it leaves. -/
structure LeavesFor (env : Env) (start : BattleBoards) (player : PlayerIndex) (task : Task)
    (before : St env) (calls : List Task) (after : St env) : Prop where
  length : (before.getBoard player).length ≤ (after.getBoard player).length ∨
    task.Deadly env.emoBases start player
  deadly : ∀ call ∈ calls, call.Deadly env.emoBases start player →
    task.Deadly env.emoBases start player
  needs : ∀ call ∈ calls, ∀ count, call.Needs env.emoBases start player count →
    count ≤ (after.getBoard player).length
  spares : calls.Pairwise (Spares env.emoBases start player)
  fromPlay : ∀ call ∈ calls, call.FromPlay env.emoBases start

variable {env : Env} {start : BattleBoards} {player playerIndex : PlayerIndex} {task : Task}
variable {before after : St env} {calls : List Task}

theorem LeavesFor.nil (length : (before.getBoard player).length ≤ (after.getBoard player).length) :
    LeavesFor env start player task before [] after :=
  ⟨.inl length, List.forall_mem_nil _, List.forall_mem_nil _, .nil, List.forall_mem_nil _⟩

/-- One more call, behind all others. -/
theorem LeavesFor.concat {last : Task} (leaves : LeavesFor env start player task before calls after)
    (deadly : last.Deadly env.emoBases start player → task.Deadly env.emoBases start player)
    (needs : ∀ count, last.Needs env.emoBases start player count →
      count ≤ (after.getBoard player).length ∧
        ∀ call ∈ calls, ¬ call.Deadly env.emoBases start player)
    (fromPlay : last.FromPlay env.emoBases start) :
    LeavesFor env start player task before (calls ++ [last]) after := by
  refine ⟨leaves.length, fun call member => ?_, fun call member => ?_, ?_, fun call member => ?_⟩
  · rcases List.mem_append.mp member with old | new
    · exact leaves.deadly call old
    · rw [List.mem_singleton.mp new]
      exact deadly
  · rcases List.mem_append.mp member with old | new
    · exact leaves.needs call old
    · rw [List.mem_singleton.mp new]
      exact fun count needed => (needs count needed).1
  · refine List.pairwise_append.mpr ⟨leaves.spares, List.pairwise_singleton _ _, ?_⟩
    intro call member below new count needed
    rw [List.mem_singleton.mp new] at needed
    exact (needs count needed).2 call member
  · rcases List.mem_append.mp member with old | new
    · exact leaves.fromPlay call old
    · rw [List.mem_singleton.mp new]
      exact fromPlay

/-! ## Calls from snapshots -/

/-- The call for an entry of a snapshot of the player's board. -/
inductive EntryCall (env : Env) (start : BattleBoards) (state : St env)
    (playerIndex : PlayerIndex) (entry : BoardAbility) : Task → Prop
  | asOneself {trigger : Ability.Battle.GeneralAsOneselfTrigger} {action : NormalAction}
      (listed : entry.ability = .general (.asOneself trigger action)) :
      EntryCall env start state playerIndex entry (.callAbilityNormalActionAsOneself playerIndex
        action entry.emoIndex none (some entry.ownerId))
  | asAlly {trigger : Ability.Battle.GeneralAsAllyTrigger} {action : GeneralAsAllyAction}
      {allyEmoIndex : Nat} (listed : entry.ability = .general (.asAlly trigger action))
      (standing : allyEmoIndex < (state.getBoard playerIndex).length) :
      EntryCall env start state playerIndex entry (.callAbilityGeneralAsAllyAction playerIndex
        action allyEmoIndex none entry.emoIndex entry.ownerId)
  | asRetiredAlly {trigger : Ability.Battle.GeneralAsAllyTrigger} {action : GeneralAsAllyAction}
      {allyEmoIndex : Nat} {emo : BattleEmo}
      (listed : entry.ability = .general (.asAlly trigger action))
      (place : ∀ normalAction, ExecutesAsAlly env.emoBases start playerIndex action normalAction →
        UsesPlace normalAction → allyEmoIndex ≤ (state.getBoard playerIndex).length)
      (fielded : Fielded env.emoBases start playerIndex emo) :
      EntryCall env start state playerIndex entry (.callAbilityGeneralAsAllyAction playerIndex
        action allyEmoIndex (some emo) entry.emoIndex entry.ownerId)
  | shieldRemoved {trigger : Ability.Battle.GeneralAsOneselfTrigger} {action : NormalAction}
      {excludesSameBase : Bool} {baseId : Nat}
      (listed : entry.ability = .general (.asOneself trigger action)) :
      EntryCall env start state playerIndex entry (.callShieldRemovedAbilityOf playerIndex
        action entry.emoIndex excludesSameBase baseId entry.ownerId)

section Entries

variable {state : St env} {entry : BoardAbility} {call : Task}

theorem inPlay_of_entry (fielded : state.boards.Every (Fielded env.emoBases start))
    (member : entry ∈ state.boards.getBoardAbilities playerIndex) :
    InPlay env.emoBases start playerIndex entry.ability := by
  obtain ⟨emo, found, _, listed⟩ := state.boards.mem_getBoardAbilities member
  exact (fielded playerIndex emo (List.mem_of_getElem? found)).inPlay _ listed

theorem EntryCall.deadly (made : EntryCall env start state playerIndex entry call)
    (deadly : call.Deadly env.emoBases start player) :
    ∃ action, Executes env.emoBases start playerIndex entry.ability action ∧
      Deadly env.emoBases start player playerIndex action := by
  cases made with
  | asOneself listed | shieldRemoved listed =>
      rw [listed]
      exact ⟨_, rfl, deadly⟩
  | asAlly listed | asRetiredAlly listed =>
      rw [listed]
      exact deadly

theorem EntryCall.needs (made : EntryCall env start state playerIndex entry call)
    (member : entry ∈ state.boards.getBoardAbilities playerIndex) {count : Nat}
    (needs : call.Needs env.emoBases start player count) :
    playerIndex = player ∧ count ≤ (state.getBoard player).length := by
  obtain ⟨emo, found, _, _⟩ := state.boards.mem_getBoardAbilities member
  have bound : entry.emoIndex + 1 ≤ (state.getBoard playerIndex).length :=
    (List.getElem?_eq_some_iff.mp found).1
  cases made with
  | asOneself | shieldRemoved =>
      cases needs
      exact ⟨rfl, bound⟩
  | asAlly _ standing =>
      cases needs with
      | oneself => exact ⟨rfl, bound⟩
      | ally => exact ⟨rfl, standing⟩
  | asRetiredAlly _ place =>
      cases needs with
      | oneself => exact ⟨rfl, bound⟩
      | retiredAlly executes uses => exact ⟨rfl, place _ executes uses⟩

theorem EntryCall.fromPlay (made : EntryCall env start state playerIndex entry call)
    (inPlay : InPlay env.emoBases start playerIndex entry.ability) :
    call.FromPlay env.emoBases start := by
  have none_fielded : ∀ emo : BattleEmo, (none : Option BattleEmo) = some emo →
      Fielded env.emoBases start playerIndex emo := fun _ same => nomatch same
  cases made with
  | asOneself listed => exact ⟨⟨_, inPlay, by rw [listed]; rfl⟩, none_fielded⟩
  | asAlly listed => exact ⟨⟨_, listed ▸ inPlay⟩, none_fielded⟩
  | asRetiredAlly listed _ fielded =>
      exact ⟨⟨_, listed ▸ inPlay⟩, fun _ same => Option.some.inj same ▸ fielded⟩
  | shieldRemoved listed => exact ⟨_, inPlay, by rw [listed]; rfl⟩

end Entries

/-- What an answer to an event may do, the event may lead to. -/
theorem follows_of_answer {event : Event} {ability : Ability.Battle} {action : NormalAction}
    (inPlay : InPlay env.emoBases start playerIndex ability)
    (answers : Answers event playerIndex ability)
    (executes : Executes env.emoBases start playerIndex ability action)
    (deadly : Deadly env.emoBases start player playerIndex action) :
    ∃ next, FollowedBy env.emoBases start event next ∧
      LeadsToRetirement env.emoBases start player next := by
  obtain ⟨next, brings, leads⟩ := deadly
  exact ⟨next, ⟨playerIndex, ability, action, inPlay, answers, executes, brings⟩, leads⟩

theorem leads_of_follows {event : Event}
    (follows : ∃ next, FollowedBy env.emoBases start event next ∧
      LeadsToRetirement env.emoBases start player next) :
    LeadsToRetirement env.emoBases start player event := by
  obtain ⟨next, follows, leads⟩ := follows
  exact .head follows leads

/-- Calls for entries of one snapshot.  The entries of the player's board do
not harm it, those of the other board do not need it. -/
theorem leaves_of_entries (steady : Steady env.emoBases start player)
    (fielded : after.boards.Every (Fielded env.emoBases start))
    (made : ∀ call ∈ calls, ∃ entry ∈ after.boards.getBoardAbilities playerIndex,
      (∀ own, entry.ability ≠ .general (.asOneself .retire own)) ∧
      EntryCall env start after playerIndex entry call ∧
      ∀ action, Executes env.emoBases start playerIndex entry.ability action →
        Deadly env.emoBases start player playerIndex action →
          task.Deadly env.emoBases start player)
    (length : (before.getBoard player).length ≤ (after.getBoard player).length) :
    LeavesFor env start player task before calls after ∧
      (playerIndex = player → ∀ call ∈ calls, ¬ call.Deadly env.emoBases start player) := by
  have harmless : playerIndex = player →
      ∀ call ∈ calls, ¬ call.Deadly env.emoBases start player := by
    rintro rfl call member deadly
    obtain ⟨entry, listed, other, called, _⟩ := made call member
    obtain ⟨action, executes, deadly⟩ := called.deadly deadly
    exact steady.entries _ action (inPlay_of_entry fielded listed) other executes deadly
  refine ⟨⟨.inl length, fun call member deadly => ?_, fun call member count needs => ?_, ?_,
    fun call member => ?_⟩, harmless⟩
  · obtain ⟨entry, _, _, called, leads⟩ := made call member
    obtain ⟨action, executes, deadly⟩ := called.deadly deadly
    exact leads action executes deadly
  · obtain ⟨entry, listed, _, called, _⟩ := made call member
    exact (called.needs listed needs).2
  · refine List.Pairwise.imp_of_mem (fun {above below} isAbove isBelow _ count needs => ?_)
      (List.pairwise_of_forall fun _ _ => trivial)
    obtain ⟨entry, listed, _, called, _⟩ := made below isBelow
    exact harmless (called.needs listed needs).1 above isAbove
  · obtain ⟨entry, listed, _, called, _⟩ := made call member
    exact called.fromPlay (inPlay_of_entry fielded listed)

/-! ## Damage and retirement -/

/-- The calls for the own `Retire` abilities of a retired emo. -/
def ownRetireCalls (playerIndex : PlayerIndex) (emoIndex : Nat) (emo : BattleEmo) : List Task :=
  (emo.attributes.abilities.filterMap fun ability =>
    (battleAbility? ability).bind retireAction?).map fun action =>
      .callAbilityNormalActionAsOneself playerIndex action emoIndex (some emo) none

theorem retireAction?_eq_some_iff {ability : Ability.Battle} {action : NormalAction} :
    retireAction? ability = some action ↔ ability = .general (.asOneself .retire action) := by
  constructor
  · intro retires
    unfold retireAction? at retires
    split at retires
    · cases retires
      rfl
    · cases retires
  · rintro rfl
    rfl

theorem ownAction_eq_some_iff {ability : Ability} {action : NormalAction} :
    (battleAbility? ability).bind retireAction? = some action ↔
      ability = .battle (.general (.asOneself .retire action)) := by
  cases ability with
  | battle ability => simp [battleAbility?, retireAction?_eq_some_iff]
  | shop => simp [battleAbility?]

/-- `retire_emo` takes the emo from the board and calls its own abilities,
those of its allies and those of its rivals. -/
theorem retireEmo_calls {emoIndex : Nat}
    (performed : retireEmo env playerIndex emoIndex before = .ok (calls, after)) :
    ∃ emo, (before.getBoard playerIndex)[emoIndex]? = some emo ∧
      after.boards = before.boards.setBoard playerIndex
        ((before.getBoard playerIndex).eraseIdx emoIndex) ∧
      calls = ownRetireCalls playerIndex emoIndex emo ++
        [.callEmoRetireBoardAbilities playerIndex emoIndex emo,
          .callEmoRetireRivalAbilities playerIndex emo] := by
  simp only [retireEmo, callEmoRetirePlayerAbilities, BattleEmo.getAbilities,
    Result.bind_eq_ok_iff, okOr_eq_ok_iff, zipU8_eq_ok_iff, Result.pure_eq_ok_iff,
    Prod.mk.injEq] at performed
  obtain ⟨emo, found, _, ⟨_, ⟨_, ⟨_, rfl⟩, rfl⟩, rfl⟩, rfl, rfl⟩ := performed
  refine ⟨emo, found, BattleState.addLog_boards .., ?_⟩
  have own : (emo.attributes.abilities.zipIdx.filterMap fun listed =>
      (battleAbility? listed.1).map fun battle => (listed.2, battle)).filterMap
        (fun listed => (retireAction? listed.2).map fun action =>
          Task.callAbilityNormalActionAsOneself playerIndex action emoIndex (some emo) none) =
      ownRetireCalls playerIndex emoIndex emo := by
    rw [List.filterMap_filterMap]
    conv_rhs => rw [ownRetireCalls, List.map_filterMap,
      ← List.zipIdx_map_fst 0 emo.attributes.abilities, List.filterMap_map]
    refine List.filterMap_congr fun listed _ => ?_
    obtain ⟨ability, _⟩ := listed
    cases ability <;> rfl
  rw [List.append_assoc]
  exact congrArg (· ++ _) own

theorem ownRetireCalls_apart {emoIndex : Nat} {emo : BattleEmo}
    (ordered : Ordered env.emoBases start player emo.attributes.abilities) :
    (ownRetireCalls player emoIndex emo).Pairwise (Spares env.emoBases start player) := by
  rw [ownRetireCalls, List.pairwise_map, List.pairwise_filterMap]
  refine ordered.imp fun {first second} kept action isFirst later isSecond count needs => ?_
  cases needs with
  | retired uses =>
      exact kept action later (ownAction_eq_some_iff.mp isFirst)
        (ownAction_eq_some_iff.mp isSecond) uses

/-- The calls after a retirement use the place of the retired emo as long as
the board still reaches it. -/
theorem retireEmo_leaves {emoIndex : Nat} (steady : Steady env.emoBases start player)
    (fielded : before.boards.Every (Fielded env.emoBases start))
    (leads : LeadsToRetirement env.emoBases start player (.retired playerIndex) →
      task.Deadly env.emoBases start player)
    (performed : retireEmo env playerIndex emoIndex before = .ok (calls, after)) :
    LeavesFor env start player task before calls after := by
  obtain ⟨emo, found, boards, rfl⟩ := retireEmo_calls performed
  have known := fielded playerIndex emo (List.mem_of_getElem? found)
  have bound := (List.getElem?_eq_some_iff.mp found).1
  have shorter : (after.getBoard playerIndex).length + 1 =
      (before.getBoard playerIndex).length := by
    rw [BattleState.getBoard, boards, BattleBoards.getBoard_setBoard,
      List.length_eraseIdx_of_lt bound]
    omega
  have own : ∀ call ∈ ownRetireCalls playerIndex emoIndex emo, ∃ action,
      InPlay env.emoBases start playerIndex (.general (.asOneself .retire action)) ∧
      call = .callAbilityNormalActionAsOneself playerIndex action emoIndex (some emo) none := by
    intro call member
    obtain ⟨action, listed, rfl⟩ := List.mem_map.mp member
    obtain ⟨ability, listed, retires⟩ := List.mem_filterMap.mp listed
    rw [ownAction_eq_some_iff.mp retires] at listed
    exact ⟨action, known.inPlay _ listed, rfl⟩
  refine ⟨?_, fun call member deadly => ?_, fun call member count needs => ?_, ?_,
    fun call member => ?_⟩
  · by_cases same : player = playerIndex
    · subst same
      exact .inr (leads .refl)
    · left
      rw [BattleState.getBoard, BattleState.getBoard, boards,
        BattleBoards.getBoard_setBoard_of_ne same]
  · rcases List.mem_append.mp member with isOwn | others
    · obtain ⟨action, inPlay, rfl⟩ := own call isOwn
      exact leads (leads_of_follows (follows_of_answer inPlay .retire rfl deadly))
    · rcases List.mem_pair.mp others with rfl | rfl
      all_goals exact leads (leads_of_follows deadly)
  · rcases List.mem_append.mp member with isOwn | others
    · obtain ⟨action, _, rfl⟩ := own call isOwn
      cases needs
      omega
    · rcases List.mem_pair.mp others with rfl | rfl
      · cases needs
        omega
      · cases needs
  · refine List.pairwise_append.mpr ⟨?_, ?_, ?_⟩
    · by_cases same : playerIndex = player
      · subst same
        exact ownRetireCalls_apart known.ordered
      · refine List.Pairwise.imp_of_mem (fun {_ below} _ isBelow _ count needs => ?_)
          (List.pairwise_of_forall fun _ _ => trivial)
        obtain ⟨action, _, rfl⟩ := own below isBelow
        cases needs
        exact absurd rfl same
    · refine List.pairwise_pair.mpr fun count needs => ?_
      cases needs
    · intro above isOwn below others count needs deadly
      obtain ⟨action, inPlay, rfl⟩ := own above isOwn
      rcases List.mem_pair.mp others with rfl | rfl
      · cases needs with
        | board allies executes uses =>
            exact steady.allies _ _ _ action allies executes uses inPlay deadly
      · cases needs
  · rcases List.mem_append.mp member with isOwn | others
    · obtain ⟨action, inPlay, rfl⟩ := own call isOwn
      exact ⟨⟨_, inPlay, rfl⟩, fun _ same => Option.some.inj same ▸ known⟩
    · rcases List.mem_pair.mp others with rfl | rfl
      all_goals exact known

/-- Damage leaves calls for a retirement or for a removed shield.  Where the
emo has survived they do not harm its board. -/
theorem damageEmo_leaves {damage emoIndex : Nat} {survived : Bool}
    (steady : Steady env.emoBases start player)
    (fielded : before.boards.Every (Fielded env.emoBases start))
    (fieldedAfter : after.boards.Every (Fielded env.emoBases start))
    (retired : LeadsToRetirement env.emoBases start player (.retired playerIndex) →
      task.Deadly env.emoBases start player)
    (shieldRemoved : LeadsToRetirement env.emoBases start player (.shieldRemoved playerIndex) →
      task.Deadly env.emoBases start player)
    (performed : damageEmo env damage playerIndex emoIndex before =
      .ok (survived, calls, after)) :
    LeavesFor env start player task before calls after ∧
      (survived = true → playerIndex = player →
        ∀ call ∈ calls, ¬ call.Deadly env.emoBases start player) := by
  cases damageEmo_damaged performed with
  | shield _ _ removed =>
      obtain ⟨update, _, made⟩ := removeShield_cases removed
      have entries := @leaves_of_entries _ _ player playerIndex task before after calls steady
        fieldedAfter (fun call member => ?_) (update.boards player).length_eq.le
      · exact ⟨entries.1, fun _ => entries.2⟩
      · obtain ⟨entry, _, _, action, _, _, listed, ability, rfl⟩ := made call member
        refine ⟨entry, listed, by simp [ability], .shieldRemoved ability, ?_⟩
        intro action executes deadly
        refine shieldRemoved (leads_of_follows (follows_of_answer
          (inPlay_of_entry fieldedAfter listed) ?_ executes deadly))
        rw [ability]
        exact .shieldRemoved
  | nothing => exact ⟨.nil (Nat.le_refl _), fun _ _ => List.forall_mem_nil _⟩
  | retired found dead retires =>
      have left := @retireEmo_leaves _ _ player playerIndex task _ _ _ _ steady
        (by rwa [BattleState.addLog_boards]) retired retires
      refine ⟨⟨?_, left.deadly, left.needs, left.spares, left.fromPlay⟩,
        fun absurd => nomatch absurd⟩
      simpa using left.length
  | wounded _ _ log =>
      subst log
      refine ⟨.nil ?_, fun _ _ => List.forall_mem_nil _⟩
      by_cases same : player = playerIndex
      · subst same
        simp [BattleState.getBoard, BattleBoards.setEmo]
      · simp [BattleState.getBoard, BattleBoards.setEmo,
          BattleBoards.getBoard_setBoard_of_ne same]

/-! ## Setting emos -/

theorem setEmo_leaves {emoIndex baseId attackAndSurvivedCount : Nat} {isTriple : Bool}
    {side : Side} (steady : Steady env.emoBases start player)
    (fielded : after.boards.Every (Fielded env.emoBases start))
    (leads : LeadsToRetirement env.emoBases start player (.set (playerOn playerIndex side)) →
      task.Deadly env.emoBases start player)
    (performed : setEmo env playerIndex emoIndex baseId isTriple attackAndSurvivedCount side
      before = .ok (calls, after)) : LeavesFor env start player task before calls after := by
  simp only [setEmo, Result.bind_eq_ok_iff, Emo.Bases.find_eq_ok_iff] at performed
  obtain ⟨base, _, performed⟩ := performed
  have added : ∃ position emo, addEmo env (playerOn playerIndex side) position emo
      { before with generatedIds := before.generatedIds + 1 } = .ok (calls, after) := by
    cases side with
    | ally | rival => exact ⟨_, _, performed⟩
  obtain ⟨position, emo, performed⟩ := added
  rcases addEmo_cases performed with ⟨_, rfl, rfl⟩ | ⟨_, bound, boards, _, made⟩
  · exact .nil (Nat.le_refl _)
  · have longer : position < (after.getBoard (playerOn playerIndex side)).length := by
      rw [BattleState.getBoard, boards, BattleBoards.getBoard_setBoard,
        List.length_insertIdx_of_le_length bound]
      exact Nat.lt_succ_of_le bound
    refine (@leaves_of_entries _ _ player (playerOn playerIndex side) task before after calls
      steady fielded (fun call member => ?_) ?_).1
    · obtain ⟨entry, typAndTriple, action, listed, ability, rfl⟩ := made call member
      refine ⟨entry, listed, by simp [ability], .asAlly ability longer, ?_⟩
      intro action executes deadly
      refine leads (leads_of_follows (follows_of_answer (inPlay_of_entry fielded listed) ?_
        executes deadly))
      rw [ability]
      exact .allySet
    · by_cases same : player = playerOn playerIndex side
      · subst same
        rw [BattleState.getBoard, BattleState.getBoard, boards, BattleBoards.getBoard_setBoard,
          List.length_insertIdx_of_le_length bound]
        exact Nat.le_succ _
      · rw [BattleState.getBoard, BattleState.getBoard, boards,
          BattleBoards.getBoard_setBoard_of_ne same]

/-- A new ally harms its own board no more than the abilities that answer. -/
theorem not_deadly_set (steady : Steady env.emoBases start player) :
    ¬ LeadsToRetirement env.emoBases start player (.set player) := by
  intro leads
  rcases Relation.ReflTransGen.cases_head leads with same | ⟨next, follows, leads⟩
  · cases same
  · obtain ⟨playerIndex, ability, action, inPlay, answers, executes, brings⟩ := follows
    cases answers
    refine steady.entries _ action inPlay ?_ executes ⟨next, brings, leads⟩
    intro own same
    cases same

/-! ## Actions -/

/-- What an action needs of its index. -/
def ActionNeeds (state : St env) (playerIndex : PlayerIndex) (action : NormalAction)
    (actionEmoIndex : Nat) (retiredActionEmoOpt : Option BattleEmo) : Prop :=
  match retiredActionEmoOpt with
  | none => actionEmoIndex + 1 ≤ (state.getBoard playerIndex).length
  | some _ => UsesPlace action → actionEmoIndex ≤ (state.getBoard playerIndex).length

theorem setEmosByAttackDiv_leaves {side : Side} {baseId divisor actionEmoIndex : Nat}
    {attackAndSurvivedCount : Nat} {retiredActionEmoOpt : Option BattleEmo}
    {isTripleAction : Bool} (steady : Steady env.emoBases start player)
    (deadly : Deadly env.emoBases start player playerIndex
      (.setEmosByAttackDiv side baseId divisor) → task.Deadly env.emoBases start player)
    (needs : ActionNeeds before playerIndex (.setEmosByAttackDiv side baseId divisor)
      actionEmoIndex retiredActionEmoOpt)
    (inPlay : ∃ ability, InPlay env.emoBases start playerIndex ability ∧
      normalAction? ability = some (.setEmosByAttackDiv side baseId divisor))
    (sets : ∀ call ∈ calls, call = .setEmo playerIndex
      (if retiredActionEmoOpt.isSome then actionEmoIndex else actionEmoIndex + 1) baseId
      isTripleAction attackAndSurvivedCount side) :
    LeavesFor env start player task before calls before := by
  have ally : ∀ call ∈ calls, ∀ count, call.Needs env.emoBases start player count →
      playerIndex = player ∧ side = .ally ∧ count ≤ (before.getBoard player).length := by
    intro call member count callNeeds
    rw [sets call member] at callNeeds
    cases callNeeds
    cases retiredActionEmoOpt with
    | none => exact ⟨rfl, rfl, needs⟩
    | some _ => exact ⟨rfl, rfl, needs rfl⟩
  refine ⟨.inl (Nat.le_refl _), fun call member leads => ?_, fun call member count callNeeds =>
    (ally call member count callNeeds).2.2, ?_, fun call member => ?_⟩
  · rw [sets call member] at leads
    exact deadly ⟨_, .setEmosByAttackDiv, leads⟩
  · refine List.Pairwise.imp_of_mem (fun {above below} isAbove isBelow _ count callNeeds => ?_)
      (List.pairwise_of_forall fun _ _ => trivial)
    obtain ⟨rfl, rfl, _⟩ := ally below isBelow count callNeeds
    rw [sets above isAbove]
    exact not_deadly_set steady
  · obtain ⟨ability, inPlay, names⟩ := inPlay
    rw [sets call member]
    exact ⟨ability, inPlay, by simp [setBase?, names]⟩

theorem damageAll_leaves {side : Side} {damage : Nat}
    (deadly : Deadly env.emoBases start player playerIndex (.damageAll side damage) →
      task.Deadly env.emoBases start player)
    (made : ∀ call ∈ calls, ∃ damage emoId,
      call = .damageAllEmosOf (playerOn playerIndex side) damage emoId) :
    LeavesFor env start player task before calls before := by
  refine ⟨.inl (Nat.le_refl _), fun call member leads => ?_, fun call member count needs => ?_,
    ?_, fun call member => ?_⟩
  · obtain ⟨_, _, rfl⟩ := made call member
    rcases leads with leads | leads
    · exact deadly ⟨_, .retired, leads⟩
    · exact deadly ⟨_, .shieldRemoved, leads⟩
  · obtain ⟨_, _, rfl⟩ := made call member
    cases needs
  · refine List.Pairwise.imp_of_mem (fun {above below} _ isBelow _ count needs => ?_)
      (List.pairwise_of_forall fun _ _ => trivial)
    obtain ⟨_, _, rfl⟩ := made below isBelow
    cases needs
  · obtain ⟨_, _, rfl⟩ := made call member
    trivial

theorem callAbilityNormalAction_leaves {action : NormalAction} {actionEmoIndex : Nat}
    {retiredActionEmoOpt : Option BattleEmo} {isTripleAction : Bool}
    (steady : Steady env.emoBases start player)
    (fielded : after.boards.Every (Fielded env.emoBases start))
    (deadly : Deadly env.emoBases start player playerIndex action →
      task.Deadly env.emoBases start player)
    (needs : ActionNeeds before playerIndex action actionEmoIndex retiredActionEmoOpt)
    (inPlay : ∃ ability, InPlay env.emoBases start playerIndex ability ∧
      normalAction? ability = some action)
    (performed : callAbilityNormalAction env playerIndex action actionEmoIndex
      retiredActionEmoOpt isTripleAction before = .ok (calls, after)) :
    LeavesFor env start player task before calls after := by
  have acted := callAbilityNormalAction_acted performed
  have written : ∀ {writes : Writes env (addedAbility? action) before after},
      LeavesFor env start player task before [] after := fun {writes} =>
    .nil ((Writes.update writes).boards player).length_eq.le
  simp only [callAbilityNormalAction, Result.bind_eq_ok_iff] at performed
  obtain ⟨actionEmo, _, performed⟩ := performed
  cases action with
  | setEmo side baseId =>
      exact setEmo_leaves steady fielded (fun leads => deadly ⟨_, .setEmo, leads⟩) performed
  | setEmosByAttackDiv side baseId divisor =>
      simp only [setEmosByAttackDiv, Result.bind_eq_ok_iff, Result.pure_eq_ok_iff,
        Prod.mk.injEq] at performed
      obtain ⟨_, _, made, rfl⟩ := performed
      exact setEmosByAttackDiv_leaves steady deadly needs inPlay fun call member =>
        List.eq_of_mem_replicate (made ▸ member)
  | damageAll side damage =>
      have made : after = before ∧ ∀ call ∈ calls, ∃ damage emoId,
          call = .damageAllEmosOf (playerOn playerIndex side) damage emoId := by
        cases side with
        | ally | rival =>
            cases performed
            refine ⟨rfl, fun call member => ?_⟩
            obtain ⟨emo, _, rfl⟩ := List.mem_map.mp member
            exact ⟨_, _, rfl⟩
      obtain ⟨rfl, made⟩ := made
      exact damageAll_leaves deadly made
  | increaseStats | decreaseStats | increaseStatsByEmoCount | addBattleAbility =>
      cases acted with
      | set sets | callsSet sets => cases sets
      | callsDamage made same =>
          simp only [Result.bind_eq_ok_iff, Result.pure_eq_ok_iff, Prod.mk.injEq] at performed
          obtain ⟨_, _, rfl, _⟩ := performed
          subst same
          exact .nil (Nat.le_refl _)
      | writes writes none =>
          subst none
          exact @written writes

/-! ## Tasks -/

/-- Tasks of an attack that only hand over to others. -/
theorem LeavesFor.handOver (deadly : task.Deadly env.emoBases start player)
    (boards : after.boards = before.boards)
    (plain : ∀ call ∈ calls, call.FromPlay env.emoBases start ∧
      ∀ count, ¬ call.Needs env.emoBases start player count) :
    LeavesFor env start player task before calls after where
  length := .inl (by rw [BattleState.getBoard, BattleState.getBoard, boards])
  deadly _ _ _ := deadly
  needs call member count needs := absurd needs ((plain call member).2 count)
  spares := List.Pairwise.imp_of_mem
    (fun {_ below} _ isBelow _ count needs => absurd needs ((plain below isBelow).2 count))
    (List.pairwise_of_forall fun _ _ => trivial)
  fromPlay call member := (plain call member).1

/-- `TriggerRetireActions` lets the ally act as if it had retired. -/
theorem custom_leaves {asAllyAction : Ability.Battle.AsAllyAction} {allyEmoIndex : Nat}
    {retiredAllyEmoOpt : Option BattleEmo} {oneselfEmoIndex ownerId : Nat}
    (steady : Steady env.emoBases start player)
    (fielded : before.boards.Every (Fielded env.emoBases start))
    (fromPlay : (Task.callAbilityGeneralAsAllyAction playerIndex (.custom asAllyAction)
      allyEmoIndex retiredAllyEmoOpt oneselfEmoIndex ownerId).FromPlay env.emoBases start)
    (needs : ∀ count, (Task.callAbilityGeneralAsAllyAction playerIndex (.custom asAllyAction)
      allyEmoIndex retiredAllyEmoOpt oneselfEmoIndex ownerId).Needs env.emoBases start player
        count → count ≤ (before.getBoard player).length)
    (performed : perform env (.callAbilityGeneralAsAllyAction playerIndex (.custom asAllyAction)
      allyEmoIndex retiredAllyEmoOpt oneselfEmoIndex ownerId) before = .ok (calls, after)) :
    LeavesFor env start player (.callAbilityGeneralAsAllyAction playerIndex (.custom asAllyAction)
      allyEmoIndex retiredAllyEmoOpt oneselfEmoIndex ownerId) before calls after := by
  obtain ⟨rfl, ally, found, made⟩ := custom_cases performed
  obtain ⟨⟨trigger, custom⟩, retired⟩ := fromPlay
  have known : Fielded env.emoBases start playerIndex ally := by
    cases retiredAllyEmoOpt with
    | some emo =>
        cases found
        exact retired _ rfl
    | none =>
        exact fielded playerIndex ally
          (List.mem_of_getElem? (BattleBoards.getEmo_eq_ok_iff.mp found))
  have own : ∀ call ∈ calls, ∃ action,
      InPlay env.emoBases start playerIndex (.general (.asOneself .retire action)) ∧
      call = .callAbilityNormalActionAsOneself playerIndex action allyEmoIndex
        retiredAllyEmoOpt none := by
    intro call member
    obtain ⟨ability, action, listed, retires, rfl⟩ := made call member
    rw [retireAction?_eq_some_iff.mp retires] at listed
    exact ⟨action, known.inPlay _ listed, rfl⟩
  cases asAllyAction
  refine ⟨.inl (Nat.le_refl _), fun call member deadly => ?_, fun call member count callNeeds => ?_,
    ?_, fun call member => ?_⟩
  · obtain ⟨action, inPlay, rfl⟩ := own call member
    exact ⟨action, inPlay, deadly⟩
  · obtain ⟨action, inPlay, rfl⟩ := own call member
    cases callNeeds with
    | acting => exact needs _ .ally
    | retired uses => exact needs _ (.retiredAlly inPlay uses)
  · refine List.Pairwise.imp_of_mem (fun {above below} isAbove isBelow _ count callNeeds => ?_)
      (List.pairwise_of_forall fun _ _ => trivial)
    have same : playerIndex = player := by
      obtain ⟨_, _, rfl⟩ := own below isBelow
      cases callNeeds <;> rfl
    subst same
    obtain ⟨action, inPlay, rfl⟩ := own above isAbove
    exact steady.entries _ action custom (fun own same => nomatch same) inPlay
  · obtain ⟨action, inPlay, rfl⟩ := own call member
    exact ⟨⟨_, inPlay, rfl⟩, retired⟩

theorem attackDamageCounter_leaves {attackPlayerIndex : PlayerIndex}
    {attackEmoIndex defenseEmoAttack attackEmoId : Nat}
    (steady : Steady env.emoBases start player)
    (fielded : before.boards.Every (Fielded env.emoBases start))
    (fieldedAfter : after.boards.Every (Fielded env.emoBases start))
    (performed : perform env (.attackDamageCounter attackPlayerIndex attackEmoIndex
      defenseEmoAttack attackEmoId) before = .ok (calls, after)) :
    LeavesFor env start player (.attackDamageCounter attackPlayerIndex attackEmoIndex
      defenseEmoAttack attackEmoId) before calls after := by
  rcases attackDamageCounter_cases performed with
    ⟨_, rfl, rfl⟩ | ⟨survived, made, within, damaged, rfl⟩
  · exact .nil (Nat.le_refl _)
  · have left := @damageEmo_leaves _ _ player _ (.attackDamageCounter attackPlayerIndex
      attackEmoIndex defenseEmoAttack attackEmoId) _ _ _ _ _ _ steady fielded fieldedAfter
      (fun _ => trivial) (fun _ => trivial) damaged
    cases survived with
    | false => simpa using left.1
    | true =>
        refine left.1.concat (fun _ => trivial) (fun count needs => ?_) trivial
        cases needs
        refine ⟨?_, left.2 rfl rfl⟩
        rcases (damageEmo_cases damaged).1 with ⟨_, update⟩ | ⟨absurd, _⟩
        · rw [← (update.boards player).length_eq]
          exact within
        · cases absurd

theorem callEmoRetireBoardAbilities_leaves {playerIndex : PlayerIndex} {retiredEmoIndex : Nat}
    {retiredEmo : BattleEmo} (steady : Steady env.emoBases start player)
    (fielded : before.boards.Every (Fielded env.emoBases start))
    (fromPlay : Fielded env.emoBases start playerIndex retiredEmo)
    (needs : ∀ count, Task.Needs env.emoBases start playerIndex
      (.callEmoRetireBoardAbilities playerIndex retiredEmoIndex retiredEmo) count →
      count ≤ (before.getBoard playerIndex).length) :
    LeavesFor env start player (.callEmoRetireBoardAbilities playerIndex retiredEmoIndex retiredEmo)
      before (callEmoRetireBoardAbilities env playerIndex retiredEmoIndex retiredEmo before).1
      before := by
  refine (@leaves_of_entries _ _ player playerIndex _ before before _ steady fielded
    (fun call member => ?_) (Nat.le_refl _)).1
  rcases mem_callEmoRetireBoardAbilities member with
    ⟨entry, _, action, listed, ability, rfl⟩ | ⟨entry, _, action, ⟨_, rfl⟩, listed, ability, rfl⟩
  · have inPlay := inPlay_of_entry fielded listed
    refine ⟨entry, listed, by simp [ability], .asRetiredAlly ability
      (fun normalAction executes uses => ?_) fromPlay, fun action executes deadly => ?_⟩
    · rw [ability] at inPlay
      exact needs _ (.board inPlay executes uses)
    · refine follows_of_answer inPlay ?_ executes deadly
      rw [ability]
      exact .allyRetireAsAlly
  · refine ⟨entry, listed, by simp [ability], .asOneself ability,
      fun action executes deadly => ?_⟩
    refine follows_of_answer (inPlay_of_entry fielded listed) ?_ executes deadly
    rw [ability]
    exact .allyRetire

theorem perform_leaves (steady : ∀ player, Steady env.emoBases start player)
    (few : FewCounted env.emoBases start)
    (fielded : before.boards.Every (Fielded env.emoBases start))
    (fromPlay : task.FromPlay env.emoBases start)
    (needs : ∀ player count, task.Needs env.emoBases start player count →
      count ≤ (before.getBoard player).length)
    (performed : perform env task before = .ok (calls, after)) (player : PlayerIndex) :
    LeavesFor env start player task before calls after := by
  have fieldedAfter := perform_every (keptBy_fielded steady few fromPlay) performed fielded
  cases task with
  | callPreAbilitiesOf playerIndex =>
      cases performed
      refine (@leaves_of_entries _ _ player playerIndex _ before before _ (steady player) fielded
        (fun call member => ?_) (Nat.le_refl _)).1
      obtain ⟨entry, _, action, rfl, listed, ability, rfl⟩ := mem_callPreAbilitiesOf member
      exact ⟨entry, listed, by simp [ability], .asOneself ability, fun _ _ _ => trivial⟩
  | attack attackPlayerIndex =>
      obtain ⟨_, _, _, _, _, _, rfl, rfl⟩ := attack_cases performed
      refine .handOver trivial (BattleState.addLog_boards ..) fun call member => ?_
      rw [List.mem_singleton.mp member]
      exact ⟨trivial, fun _ needs => nomatch needs⟩
  | attackDamage attackPlayerIndex attackEmoIndex defenseEmoIndex =>
      obtain ⟨_, _, _, made, _, _, damaged, rfl⟩ := attackDamage_cases performed
      have left := @damageEmo_leaves _ _ player _ (.attackDamage attackPlayerIndex attackEmoIndex
        defenseEmoIndex) _ _ _ _ _ _ (steady player) fielded fieldedAfter (fun _ => trivial)
        (fun _ => trivial) damaged
      exact left.1.concat (fun _ => trivial) (fun _ needs => nomatch needs) trivial
  | attackDamageCounter attackPlayerIndex attackEmoIndex defenseEmoAttack attackEmoId =>
      exact attackDamageCounter_leaves (steady player) fielded fieldedAfter performed
  | countAttackAndSurvived attackPlayerIndex attackEmoIndex attackEmoId =>
      obtain ⟨emo, found, rfl, rfl⟩ := countAttackAndSurvived_cases performed
      have changed : Changed none emo
          { emo with attackAndSurvivedCount := emo.attackAndSurvivedCount + 1 } :=
        ⟨rfl, rfl, rfl, rfl, fun _ => .inl⟩
      exact .nil ((Update.setEmo found changed).boards player).length_eq.le
  | callAbilityNormalActionAsOneself playerIndex action actionEmoIndex retiredActionEmoOpt =>
      rcases act_cases rfl performed with ⟨_, rfl, rfl⟩ | ⟨_, performed⟩
      · exact .nil (Nat.le_refl _)
      · refine callAbilityNormalAction_leaves (steady player) fieldedAfter id ?_
          (fromPlay.act rfl) performed
        cases retiredActionEmoOpt with
        | none => exact needs playerIndex _ .acting
        | some _ => exact fun uses => needs playerIndex _ (.retired uses)
  | callAbilityGeneralAsAllyAction playerIndex action allyEmoIndex retiredAllyEmoOpt =>
      cases action with
      | custom asAllyAction =>
          exact custom_leaves (steady player) fielded fromPlay (needs player) performed
      | oneselfTripleNormal action =>
          rcases act_cases rfl performed with ⟨_, rfl, rfl⟩ | ⟨_, performed⟩
          · exact .nil (Nat.le_refl _)
          · refine callAbilityNormalAction_leaves (steady player) fieldedAfter
              (fun deadly => ⟨action, rfl, deadly⟩) ?_ (fromPlay.act rfl) performed
            cases retiredAllyEmoOpt with
            | none => exact needs playerIndex _ .ally
            | some _ => exact fun uses => needs playerIndex _ (.retiredAlly rfl uses)
  | callShieldRemovedAbilityOf playerIndex =>
      rcases act_cases rfl performed with ⟨_, rfl, rfl⟩ | ⟨_, performed⟩
      · exact .nil (Nat.le_refl _)
      · refine callAbilityNormalAction_leaves (steady player) fieldedAfter id ?_
          (fromPlay.act rfl) performed
        exact needs playerIndex _ .shieldRemoved
  | callEmoRetireBoardAbilities playerIndex retiredEmoIndex retiredEmo =>
      cases performed
      exact callEmoRetireBoardAbilities_leaves (steady player) fielded fromPlay
        (needs playerIndex)
  | callEmoRetireRivalAbilities playerIndex retiredEmo =>
      cases performed
      refine (@leaves_of_entries _ _ player (switchPlayerIndex playerIndex) _ before before _
        (steady player) fielded (fun call member => ?_) (Nat.le_refl _)).1
      obtain ⟨entry, _, action, ⟨_, rfl⟩, listed, ability, rfl⟩ :=
        mem_callEmoRetireRivalAbilities member
      refine ⟨entry, listed, by simp [ability], .asOneself ability,
        fun action executes deadly => ?_⟩
      refine follows_of_answer (inPlay_of_entry fielded listed) ?_ executes deadly
      rw [ability]
      exact .rivalRetire
  | setEmo playerIndex =>
      exact setEmo_leaves (steady player) fieldedAfter id performed
  | damageAllEmosOf playerIndex =>
      rcases damageAllEmosOf_cases performed with ⟨rfl, rfl⟩ | ⟨_, _, damaged⟩
      · exact .nil (Nat.le_refl _)
      · refine (damageEmo_leaves (steady player) fielded fieldedAfter ?_ ?_ damaged).1
        · exact Or.inl
        · exact Or.inr
  | marchBegin tick =>
      obtain ⟨rfl, ⟨_, _, rfl⟩ | rfl⟩ := marchBegin_cases performed
      · exact .nil (Nat.le_refl _)
      · refine .handOver trivial rfl fun call member => ?_
        rw [List.mem_singleton.mp member]
        exact ⟨trivial, fun _ needs => nomatch needs⟩
  | marchLoop tick =>
      cases performed
      refine .handOver trivial rfl fun call member => ?_
      rcases List.mem_pair.mp member with rfl | rfl
      all_goals exact ⟨trivial, fun _ needs => nomatch needs⟩
  | marchNext tick =>
      obtain ⟨rfl, ⟨_, _, rfl⟩ | ⟨_, rfl⟩⟩ := marchNext_cases performed
      · exact .nil (Nat.le_refl _)
      · refine .handOver trivial rfl fun call member => ?_
        rw [List.mem_singleton.mp member]
        exact ⟨trivial, fun _ needs => nomatch needs⟩

/-! ## Runs -/

/-- What every configuration of a step on steady boards satisfies. -/
structure SteadyConfig (start : BattleBoards) (config : Config Task (St env)) : Prop where
  fielded : config.state.boards.Every (Fielded env.emoBases start)
  fromPlay : ∀ task ∈ config.stack, task.FromPlay env.emoBases start
  needs : ∀ player, ∀ task ∈ config.stack, ∀ count,
    task.Needs env.emoBases start player count → count ≤ (config.state.getBoard player).length
  spares : ∀ player, config.stack.Pairwise (Spares env.emoBases start player)
  noMarch : ∀ task ∈ config.stack, task.isMarch = false
  /-- Only the last task counts an attack. -/
  part : ∀ task ∈ config.stack.dropLast, task.isPlain
  counts : config.stack ≠ [] →
    config.state.boards.Every fun _ emo => emo.attackAndSurvivedCount < u8Max
  carried : ∀ task ∈ config.stack, ∀ count, task.Carries count → count < u8Max

theorem keptBy_count (others : ∀ attackPlayerIndex attackEmoIndex attackEmoId,
      task ≠ .countAttackAndSurvived attackPlayerIndex attackEmoIndex attackEmoId)
    (carried : ∀ count, task.Carries count → count < u8Max) :
    KeptBy env task fun _ emo => emo.attackAndSurvivedCount < u8Max where
  stats emo _ _ := emo
  count counts := absurd counts (others _ _ _)
  shield _ emo := emo
  ability _ _ emo := emo
  set _ _ _ _ seen := by
    rcases seen with zero | ⟨_, emo, small, same⟩ | carries
    · exact zero ▸ Nat.zero_lt_succ _
    · exact same ▸ small
    · exact carried _ carries

/-- Where a task is not the last one, it is not that which counts an attack. -/
theorem SteadyConfig.counts_step {rest : List Task}
    (config : SteadyConfig start ⟨task :: rest, before⟩)
    (performed : perform env task before = .ok (calls, after)) (left : calls ++ rest ≠ []) :
    after.boards.Every fun _ emo => emo.attackAndSurvivedCount < u8Max := by
  refine perform_every (keptBy_count ?_ (config.carried task List.mem_cons_self)) performed
    (config.counts (List.cons_ne_nil _ _))
  rintro attackPlayerIndex attackEmoIndex attackEmoId rfl
  obtain ⟨_, _, rfl, _⟩ := countAttackAndSurvived_cases performed
  cases rest with
  | nil => exact left rfl
  | cons next later => exact nomatch config.part _ List.mem_cons_self

theorem Task.isMarch_of_isPlain (plain : task.isPlain) : task.isMarch = false := by
  cases task <;> first | rfl | cases plain

theorem SteadyConfig.noMarch_step {rest : List Task}
    (config : SteadyConfig start ⟨task :: rest, before⟩)
    (performed : perform env task before = .ok (calls, after)) :
    ∀ call ∈ calls ++ rest, call.isMarch = false := by
  intro call member
  rcases List.mem_append.mp member with new | old
  · obtain ⟨plain, isPlain, rfl | ⟨last, isLast, rfl⟩⟩ :=
      perform_attackCalls (config.noMarch task List.mem_cons_self) performed
    · exact Task.isMarch_of_isPlain (isPlain call new)
    · rcases List.mem_append.mp new with early | late
      · exact Task.isMarch_of_isPlain (isPlain call early)
      · rw [List.mem_singleton.mp late]
        exact isLast
  · exact config.noMarch call (List.mem_cons_of_mem _ old)

theorem SteadyConfig.part_step {rest : List Task}
    (config : SteadyConfig start ⟨task :: rest, before⟩)
    (performed : perform env task before = .ok (calls, after)) :
    ∀ call ∈ (calls ++ rest).dropLast, call.isPlain := by
  intro call member
  cases rest with
  | nil =>
      obtain ⟨plain, isPlain, rfl | ⟨last, _, rfl⟩⟩ :=
        perform_attackCalls (config.noMarch task List.mem_cons_self) performed
      · rw [List.append_nil] at member
        exact isPlain call ((List.dropLast_subset _) member)
      · rw [List.append_nil, List.dropLast_concat] at member
        exact isPlain call member
  | cons next later =>
      have plain := config.part task List.mem_cons_self
      rw [List.dropLast_append_of_ne_nil (List.cons_ne_nil next later)] at member
      rcases List.mem_append.mp member with new | old
      · exact ((perform_performs performed).origin call new).isPlain plain
      · exact config.part call (List.mem_cons_of_mem _ old)

theorem SteadyConfig.step (steady : ∀ player, Steady env.emoBases start player)
    (few : FewCounted env.emoBases start) {rest : List Task}
    (config : SteadyConfig start ⟨task :: rest, before⟩)
    (performed : perform env task before = .ok (calls, after)) :
    SteadyConfig start ⟨calls ++ rest, after⟩ := by
  have fromPlay := config.fromPlay task List.mem_cons_self
  have leaves := perform_leaves steady few config.fielded fromPlay
    (fun player => config.needs player task List.mem_cons_self) performed
  refine ⟨perform_every (keptBy_fielded steady few fromPlay) performed config.fielded,
    fun call member => ?_, fun player call member count needs => ?_, fun player => ?_,
    config.noMarch_step performed, config.part_step performed, config.counts_step performed,
    fun call member count carries => ?_⟩
  · rcases List.mem_append.mp member with new | old
    · exact (leaves .zero).fromPlay call new
    · exact config.fromPlay call (List.mem_cons_of_mem _ old)
  · rcases List.mem_append.mp member with new | old
    · exact (leaves player).needs call new count needs
    · -- The board has not shrunk, since the waiting task needs it.
      have enough := config.needs player call (List.mem_cons_of_mem _ old) count needs
      rcases (leaves player).length with longer | deadly
      · exact Nat.le_trans enough longer
      · exact absurd deadly ((List.pairwise_cons.mp (config.spares player)).1 call old count needs)
  · obtain ⟨first, rest⟩ := List.pairwise_cons.mp (config.spares player)
    refine List.pairwise_append.mpr ⟨(leaves player).spares, rest, ?_⟩
    intro above new below old count needs deadly
    exact first below old count needs ((leaves player).deadly above new deadly)
  · rcases List.mem_append.mp member with new | old
    · rcases perform_counted performed new carries with rfl | ⟨player, emo, member, rfl⟩ | carries
      · exact Nat.zero_lt_succ _
      · exact config.counts (List.cons_ne_nil _ _) player emo member
      · exact config.carried task List.mem_cons_self count carries
    · exact config.carried call (List.mem_cons_of_mem _ old) count carries

theorem actionInRange_of_usesPlace {board : List BattleEmo} {action : NormalAction}
    {actionEmoIndex : Nat} (place : UsesPlace action → actionEmoIndex ≤ board.length) :
    ActionInRange board action actionEmoIndex true := by
  have target : ∀ {targetOrRandom : Ability.TargetOrRandom},
      ((∃ typAndTriple, targetOrRandom = .target (.others .left typAndTriple)) →
        actionEmoIndex ≤ board.length) → TargetInRange board actionEmoIndex targetOrRandom := by
    intro targetOrRandom place
    unfold TargetInRange
    split
    · exact place ⟨_, rfl⟩
    · trivial
  cases action with
  | setEmo side baseId =>
      cases side with
      | ally => exact fun _ => place rfl
      | rival => trivial
  | increaseStats | decreaseStats | increaseStatsByEmoCount | addBattleAbility =>
      exact target place
  | setEmosByAttackDiv | damageAll => trivial

/-- On steady boards every task finds its indexes in range. -/
theorem SteadyConfig.inRange {rest : List Task}
    (config : SteadyConfig start ⟨task :: rest, before⟩) : InRange task before.boards := by
  have needs := fun player => config.needs player task List.mem_cons_self
  have countable : ∀ {player : PlayerIndex} {emoIndex : Nat} {emo : BattleEmo},
      (before.getBoard player)[emoIndex]? = some emo → Countable emo := fun found =>
    (config.fielded _ _ (List.mem_of_getElem? found)).few
  cases task with
  | attack => exact fun _ _ _ => countable
  | attackDamage | attackDamageCounter => exact fun _ => countable
  | countAttackAndSurvived attackPlayerIndex attackEmoIndex =>
      have found := List.getElem?_eq_getElem (needs attackPlayerIndex _ .count)
      exact ⟨_, found, config.counts (List.cons_ne_nil _ _) _ _ (List.mem_of_getElem? found)⟩
  | callAbilityNormalActionAsOneself playerIndex action actionEmoIndex retiredActionEmoOpt =>
      cases retiredActionEmoOpt with
      | none => exact needs playerIndex _ .acting
      | some emo =>
          exact actionInRange_of_usesPlace fun uses => needs playerIndex _ (.retired uses)
  | callAbilityGeneralAsAllyAction playerIndex action allyEmoIndex retiredAllyEmoOpt =>
      refine ⟨needs playerIndex _ .oneself, ?_⟩
      cases action with
      | oneselfTripleNormal action =>
          cases retiredAllyEmoOpt with
          | none => exact needs playerIndex _ .ally
          | some emo =>
              exact actionInRange_of_usesPlace fun uses =>
                needs playerIndex _ (.retiredAlly rfl uses)
      | custom asAllyAction =>
          cases asAllyAction
          cases retiredAllyEmoOpt with
          | none =>
              have found := List.getElem?_eq_getElem (needs playerIndex _ .ally)
              exact ⟨_, found, countable found⟩
          | some emo =>
              exact ⟨emo, rfl,
                ((config.fromPlay _ List.mem_cons_self).2 emo rfl).few⟩
  | callShieldRemovedAbilityOf playerIndex => exact needs playerIndex _ .shieldRemoved
  | setEmo playerIndex emoIndex baseId isTriple attackAndSurvivedCount side =>
      rintro rfl _
      exact needs playerIndex _ .set
  | damageAllEmosOf => exact fun _ _ _ => countable
  | callPreAbilitiesOf | callEmoRetireBoardAbilities | callEmoRetireRivalAbilities | marchBegin
  | marchLoop | marchNext => trivial

theorem steadyConfig_start {calls : List Task} {state : St env}
    (steady : ∀ player, Steady env.emoBases state.boards player)
    (few : FewCounted env.emoBases state.boards)
    (step : (∃ first, calls = callPreAbilities first) ∨ ∃ player, calls = [.attack player]) :
    SteadyConfig state.boards ⟨calls, state⟩ := by
  have plain : ∀ task ∈ calls, task.FromPlay env.emoBases state.boards ∧
      task.isMarch = false ∧ (∀ count, ¬ task.Carries count) ∧
      ∀ player count, ¬ task.Needs env.emoBases state.boards player count := by
    intro task member
    have started : (∃ player, task = .callPreAbilitiesOf player) ∨
        ∃ player, task = .attack player := by
      rcases step with ⟨first, rfl⟩ | ⟨player, rfl⟩
      · rcases List.mem_pair.mp member with rfl | rfl
        all_goals exact .inl ⟨_, rfl⟩
      · exact .inr ⟨player, List.mem_singleton.mp member⟩
    rcases started with ⟨player, rfl⟩ | ⟨player, rfl⟩
    all_goals
      refine ⟨trivial, rfl, fun _ carries => ?_, fun _ _ needs => nomatch needs⟩
      rcases carries with ⟨_, none, _⟩ | ⟨_, _, _, _, _, same⟩
      · cases none
      · cases same
  constructor
  · exact fun player emo member => ⟨fun ability listed => .listed member listed,
      (steady player).emos emo member, few.abilities player emo member⟩
  · exact fun task member => (plain task member).1
  · exact fun player task member count needs =>
      absurd needs ((plain task member).2.2.2 player count)
  · exact fun player => List.Pairwise.imp_of_mem
      (fun {_ below} _ isBelow _ count needs =>
        absurd needs ((plain below isBelow).2.2.2 player count))
      (List.pairwise_of_forall fun _ _ => trivial)
  · exact fun task member => (plain task member).2.1
  · intro task member
    rcases step with ⟨first, rfl⟩ | ⟨player, rfl⟩
    · rw [List.mem_singleton.mp member]
      rfl
    · cases member
  · exact fun _ => few.attacks
  · exact fun task member count carries => absurd carries ((plain task member).2.2.1 count)

/-- An emo that hits all rivals when it retires and then sets an emo where it
stood. -/
def founderBase : Base where
  id := 1
  typ := .human
  grade := 1
  attack := 1
  health := 1
  abilities := [.battle (.general (.asOneself .retire (.damageAll .rival 1))),
    .battle (.general (.asOneself .retire (.setEmo .ally 0)))]

/-- An emo that gains by every ally that retires. -/
def mournerBase : Base where
  id := 2
  typ := .human
  grade := 1
  attack := 2
  health := 2
  abilities := [.battle (.general (.asOneself (.allyRetire ⟨none, none⟩)
    (.increaseStats (.target .oneself) 1 1)))]

def founderEnv : Env where
  emoBases id := if id = 0 then some plainBase else if id = 1 then some founderBase else
    if id = 2 then some mournerBase else none
  sampler := .first

/-- A mourner and a plain emo against a founder and a mourner. -/
def founderState : St founderEnv where
  boards := {
    board0 := [.newWithBase 0 mournerBase false, .newWithBase 1 plainBase false]
    board1 := [.newWithBase 2 founderBase false, .newWithBase 3 mournerBase false] }
  logs := []
  rng := ()
  generatedIds := 4

theorem founderEnv_cases {id : Nat} {base : Base} (found : founderEnv.emoBases id = some base) :
    base = plainBase ∨ base = founderBase ∨ base = mournerBase := by
  simp only [founderEnv] at found
  split at found
  · exact .inl (Option.some.inj found).symm
  · split at found
    · exact .inr (.inl (Option.some.inj found).symm)
    · split at found
      · exact .inr (.inr (Option.some.inj found).symm)
      · cases found

theorem founderState_cases {playerIndex : PlayerIndex} {emo : BattleEmo}
    (member : emo ∈ founderState.getBoard playerIndex) :
    emo.attributes.health ≤ 2 ∧ emo.attackAndSurvivedCount = 0 ∧
      (emo.attributes.abilities = [] ∨ emo.attributes.abilities = mournerBase.abilities ∨
        playerIndex = .one ∧ emo.attributes.abilities = founderBase.abilities) := by
  cases playerIndex <;> rcases List.mem_pair.mp member with rfl | rfl <;> decide

/-- The abilities in play are those of the mourners and, for the second player,
those of the founder. -/
theorem founderState_inPlay {playerIndex : PlayerIndex} {ability : Ability.Battle}
    (inPlay : InPlay founderEnv.emoBases founderState.boards playerIndex ability) :
    .battle ability ∈ mournerBase.abilities ∨
      playerIndex = .one ∧ .battle ability ∈ founderBase.abilities := by
  induction inPlay with
  | listed member listed =>
      rcases (founderState_cases member).2.2 with none | mourner | ⟨one, founder⟩
      · rw [none] at listed
        cases listed
      · exact .inl (mourner ▸ listed)
      · exact .inr ⟨one, founder ▸ listed⟩
  | set _ sets found listed ih =>
      -- Only the founder sets an emo, and that one has no abilities.
      rcases ih with mourner | ⟨_, founder⟩
      · cases List.mem_singleton.mp mourner
        cases sets
      · rcases List.mem_pair.mp founder with same | same
        all_goals
          cases same
          cases sets
        cases found
        cases listed
  | added _ adds ih =>
      rcases ih with mourner | ⟨_, founder⟩
      · cases List.mem_singleton.mp mourner
        cases adds
      · rcases List.mem_pair.mp founder with same | same
        all_goals
          cases same
          cases adds

theorem founderState_steady (playerIndex : PlayerIndex) :
    Steady founderEnv.emoBases founderState.boards playerIndex := by
  cases playerIndex with
  | one =>
      refine steady_of_unharmed fun playerIndex ability side damage inPlay executes => ?_
      rcases founderState_inPlay inPlay with mourner | ⟨rfl, founder⟩
      · cases List.mem_singleton.mp mourner
        cases executes
      · rcases List.mem_pair.mp founder with same | same
        all_goals
          cases same
          cases executes
        decide
  | zero =>
      have own : ∀ {ability}, InPlay founderEnv.emoBases founderState.boards .zero ability →
          ability = .general (.asOneself (.allyRetire ⟨none, none⟩)
            (.increaseStats (.target .oneself) 1 1)) := by
        intro ability inPlay
        rcases founderState_inPlay inPlay with mourner | ⟨one, _⟩
        · cases List.mem_singleton.mp mourner
          rfl
        · cases one
      refine ⟨fun ability action inPlay _ executes => ?_, fun emo member => ?_, ?_,
        fun _ _ _ _ _ _ retire => (by cases own retire),
        fun _ _ _ _ _ _ _ retire => (by cases own retire)⟩
      · cases own inPlay
        cases executes
        rintro ⟨event, brings, _⟩
        cases brings
      · rcases (founderState_cases member).2.2 with none | mourner | ⟨one, _⟩
        · rw [none]
          exact .nil
        · rw [mourner]
          exact List.pairwise_singleton _ _
        · cases one
      · rintro base ⟨playerIndex, ability, side, baseId, inPlay, sets, toZero, found⟩
        rcases founderState_inPlay inPlay with mourner | ⟨rfl, founder⟩
        · cases List.mem_singleton.mp mourner
          cases sets
        · rcases List.mem_pair.mp founder with same | same
          all_goals
            cases same
            cases sets
          cases toZero

end EmojiBattler.Mtc.Battle
