import Mathlib.Logic.Relation
import EmojiBattler.Battle.Emos

/-! # The abilities in play

Which abilities an emo of a board can ever have in a battle, what they answer
to and what they bring about, read off the boards and the bases alone. -/

namespace EmojiBattler.Mtc.Battle

open EmojiBattler.Emo
open EmojiBattler.Emo.Ability (Side TargetOrRandom)
open EmojiBattler.Emo.Ability.Battle (NormalAction GeneralAsAllyAction)

/-! ## Events -/

/-- What abilities answer to. -/
inductive Event where
  | set (playerIndex : PlayerIndex)
  | retired (playerIndex : PlayerIndex)
  | shieldRemoved (playerIndex : PlayerIndex)

/-- An ability of an emo of the player answers the event.  A `Retire` ability
answers the retirement of its own emo. -/
inductive Answers : Event → PlayerIndex → Ability.Battle → Prop
  | allySet {playerIndex : PlayerIndex} {typAndTriple : Ability.TypOptAndIsTripleOpt}
      {action : GeneralAsAllyAction} :
      Answers (.set playerIndex) playerIndex (.general (.asAlly (.allySet typAndTriple) action))
  | retire {playerIndex : PlayerIndex} {action : NormalAction} :
      Answers (.retired playerIndex) playerIndex (.general (.asOneself .retire action))
  | allyRetire {playerIndex : PlayerIndex} {typAndTriple : Ability.TypOptAndIsTripleOpt}
      {action : NormalAction} :
      Answers (.retired playerIndex) playerIndex
        (.general (.asOneself (.allyRetire typAndTriple) action))
  | allyRetireAsAlly {playerIndex : PlayerIndex} {typAndTriple : Ability.TypOptAndIsTripleOpt}
      {action : GeneralAsAllyAction} :
      Answers (.retired playerIndex) playerIndex
        (.general (.asAlly (.allyRetire typAndTriple) action))
  | rivalRetire {playerIndex : PlayerIndex} {typAndTriple : Ability.TypOptAndIsTripleOpt}
      {action : NormalAction} :
      Answers (.retired playerIndex) (switchPlayerIndex playerIndex)
        (.general (.asOneself (.rivalRetire typAndTriple) action))
  | shieldRemoved {playerIndex : PlayerIndex} {typAndTriple : Ability.TypOptAndIsTripleOpt}
      {excludesSameBase : Bool} {ability : Ability.Battle} {action : NormalAction} :
      Answers (.shieldRemoved playerIndex) playerIndex (.general (.asOneself
        (.allyBattleAbilityRemoved typAndTriple excludesSameBase ability) action))

/-- An action of the player can bring the event about. -/
inductive Brings (playerIndex : PlayerIndex) : NormalAction → Event → Prop
  | setEmo {side : Side} {baseId : Nat} :
      Brings playerIndex (.setEmo side baseId) (.set (playerOn playerIndex side))
  | setEmosByAttackDiv {side : Side} {baseId divisor : Nat} :
      Brings playerIndex (.setEmosByAttackDiv side baseId divisor)
        (.set (playerOn playerIndex side))
  | retired {side : Side} {damage : Nat} :
      Brings playerIndex (.damageAll side damage) (.retired (playerOn playerIndex side))
  | shieldRemoved {side : Side} {damage : Nat} :
      Brings playerIndex (.damageAll side damage) (.shieldRemoved (playerOn playerIndex side))

/-- The action uses the place of the acting emo even where that emo has
retired: it sets allies there or acts on the emo left of it. -/
def UsesPlace : NormalAction → Prop
  | .setEmo side _ | .setEmosByAttackDiv side _ _ => side = .ally
  | .increaseStats targetOrRandom _ _ | .decreaseStats targetOrRandom _ _
  | .increaseStatsByEmoCount _ targetOrRandom _ _ _ | .addBattleAbility targetOrRandom _ =>
      ∃ typAndTriple, targetOrRandom = .target (.others .left typAndTriple)
  | .damageAll .. => False

/-! ## In play -/

/-- The normal action that an ability names. -/
def normalAction? : Ability.Battle → Option NormalAction
  | .general (.asOneself _ action) => some action
  | .general (.asAlly _ (.oneselfTripleNormal action)) => some action
  | _ => none

/-- The side and the base of the emos that an ability sets. -/
def setBase? (ability : Ability.Battle) : Option (Side × Nat) :=
  match normalAction? ability with
  | some (.setEmo side baseId) | some (.setEmosByAttackDiv side baseId _) => some (side, baseId)
  | _ => none

variable (bases : Bases) (boards : BattleBoards)

/-- The abilities that an emo of the player has at the start, those of the
bases that are set for the player, and those that are added. -/
inductive InPlay : PlayerIndex → Ability.Battle → Prop
  | listed {playerIndex : PlayerIndex} {emo : BattleEmo} {ability : Ability.Battle}
      (member : emo ∈ boards.getBoard playerIndex)
      (listed : .battle ability ∈ emo.attributes.abilities) : InPlay playerIndex ability
  | set {playerIndex : PlayerIndex} {ability other : Ability.Battle} {side : Side} {baseId : Nat}
      {base : Base} (inPlay : InPlay playerIndex ability)
      (sets : setBase? ability = some (side, baseId)) (found : bases baseId = some base)
      (listed : .battle other ∈ base.abilities) : InPlay (playerOn playerIndex side) other
  | added {playerIndex : PlayerIndex} {ability other : Ability.Battle}
      (inPlay : InPlay playerIndex ability)
      (adds : (normalAction? ability).bind addedAbility? = some other) : InPlay playerIndex other

/-- A base whose emos an ability in play sets for the player. -/
def SetInPlay (player : PlayerIndex) (base : Base) : Prop :=
  ∃ playerIndex ability side baseId, InPlay bases boards playerIndex ability ∧
    setBase? ability = some (side, baseId) ∧ player = playerOn playerIndex side ∧
    bases baseId = some base

/-- The normal actions that an action as ally can come to: its own, or with
`TriggerRetireActions` those of the allies' `Retire` abilities. -/
def ExecutesAsAlly (playerIndex : PlayerIndex) (action : GeneralAsAllyAction)
    (normalAction : NormalAction) : Prop :=
  match action with
  | .oneselfTripleNormal action => action = normalAction
  | .custom .triggerRetireActions =>
      InPlay bases boards playerIndex (.general (.asOneself .retire normalAction))

def Executes (playerIndex : PlayerIndex) (ability : Ability.Battle)
    (normalAction : NormalAction) : Prop :=
  match ability with
  | .general (.asOneself _ action) => action = normalAction
  | .general (.asAlly _ action) => ExecutesAsAlly bases boards playerIndex action normalAction
  | .special _ => False

/-- An ability in play that answers the first event can bring the second one
about. -/
def FollowedBy (first next : Event) : Prop :=
  ∃ playerIndex ability action, InPlay bases boards playerIndex ability ∧
    Answers first playerIndex ability ∧ Executes bases boards playerIndex ability action ∧
    Brings playerIndex action next

/-- After the event an emo of the player may retire. -/
def LeadsToRetirement (player : PlayerIndex) (event : Event) : Prop :=
  Relation.ReflTransGen (FollowedBy bases boards) event (.retired player)

/-- The action may make an emo of the player retire. -/
def Deadly (player playerIndex : PlayerIndex) (action : NormalAction) : Prop :=
  ∃ event, Brings playerIndex action event ∧ LeadsToRetirement bases boards player event

/-- In the list of abilities no `Retire` action that uses the place comes after
one that may make an ally retire. -/
def Ordered (player : PlayerIndex) (abilities : List Ability) : Prop :=
  abilities.Pairwise fun first second => ∀ action later,
    first = .battle (.general (.asOneself .retire action)) →
    second = .battle (.general (.asOneself .retire later)) → UsesPlace later →
      ¬ Deadly bases boards player player action

/-- No ability in play makes an emo of the player retire while an index of the
player's board is still to be used. -/
structure Steady (player : PlayerIndex) : Prop where
  /-- The abilities that are called from a snapshot of the board are harmless
  to that board. -/
  entries : ∀ ability action, InPlay bases boards player ability →
    (∀ own, ability ≠ .general (.asOneself .retire own)) →
    Executes bases boards player ability action → ¬ Deadly bases boards player player action
  emos : ∀ emo ∈ boards.getBoard player, Ordered bases boards player emo.attributes.abilities
  newEmos : ∀ base, SetInPlay bases boards player base → Ordered bases boards player base.abilities
  /-- An added ability comes behind all others. -/
  added : ∀ ability later action, InPlay bases boards player ability →
    (normalAction? ability).bind addedAbility? = some (.general (.asOneself .retire later)) →
    UsesPlace later → InPlay bases boards player (.general (.asOneself .retire action)) →
      ¬ Deadly bases boards player player action
  /-- The allies act at the place of the retired emo after it has acted. -/
  allies : ∀ typAndTriple ally later action,
    InPlay bases boards player (.general (.asAlly (.allyRetire typAndTriple) ally)) →
    ExecutesAsAlly bases boards player ally later → UsesPlace later →
    InPlay bases boards player (.general (.asOneself .retire action)) →
      ¬ Deadly bases boards player player action

/-- A `u8` counts the abilities of all emos and the attacks that they have
survived, also after one more. -/
structure FewCounted : Prop where
  abilities : ∀ playerIndex, ∀ emo ∈ boards.getBoard playerIndex,
    emo.attributes.abilities.length ≤ u8Max
  newEmos : ∀ playerIndex base, SetInPlay bases boards playerIndex base →
    base.abilities.length ≤ u8Max
  attacks : ∀ playerIndex, ∀ emo ∈ boards.getBoard playerIndex, emo.attackAndSurvivedCount < u8Max

/-! ## What the emos of a battle have -/

variable {bases boards}

/-- All abilities of the emo are in play, in an order that does no harm. -/
structure Fielded (bases : Bases) (boards : BattleBoards) (playerIndex : PlayerIndex)
    (emo : BattleEmo) : Prop where
  inPlay : ∀ ability, .battle ability ∈ emo.attributes.abilities →
    InPlay bases boards playerIndex ability
  ordered : Ordered bases boards playerIndex emo.attributes.abilities
  few : emo.attributes.abilities.length ≤ u8Max

/-- What a task carries is in play. -/
def Task.FromPlay (bases : Bases) (boards : BattleBoards) : Task → Prop
  | .callAbilityNormalActionAsOneself playerIndex action _ retiredActionEmoOpt _ =>
      (∃ ability, InPlay bases boards playerIndex ability ∧ normalAction? ability = some action) ∧
        ∀ emo, retiredActionEmoOpt = some emo → Fielded bases boards playerIndex emo
  | .callAbilityGeneralAsAllyAction playerIndex action _ retiredAllyEmoOpt _ _ =>
      (∃ trigger, InPlay bases boards playerIndex (.general (.asAlly trigger action))) ∧
        ∀ emo, retiredAllyEmoOpt = some emo → Fielded bases boards playerIndex emo
  | .callShieldRemovedAbilityOf playerIndex action _ _ _ _ =>
      ∃ ability, InPlay bases boards playerIndex ability ∧ normalAction? ability = some action
  | .setEmo playerIndex _ baseId _ _ side =>
      ∃ ability, InPlay bases boards playerIndex ability ∧
        setBase? ability = some (side, baseId)
  | .callEmoRetireBoardAbilities playerIndex _ emo | .callEmoRetireRivalAbilities playerIndex emo =>
      Fielded bases boards playerIndex emo
  | _ => True

theorem Task.FromPlay.act {task : Task} {playerIndex : PlayerIndex} {action : NormalAction}
    {actionEmoIndex : Nat} {retiredActionEmoOpt : Option BattleEmo}
    (fromPlay : task.FromPlay bases boards)
    (acts : task.act? = some (playerIndex, action, actionEmoIndex, retiredActionEmoOpt)) :
    ∃ ability, InPlay bases boards playerIndex ability ∧ normalAction? ability = some action := by
  unfold Task.act? at acts
  split at acts
  · cases acts
    exact fromPlay.1
  · cases acts
    obtain ⟨⟨trigger, inPlay⟩, _⟩ := fromPlay
    exact ⟨_, inPlay, rfl⟩
  · cases acts
    exact fromPlay
  · cases acts

theorem Task.FromPlay.sets {task : Task} {player : PlayerIndex} {baseId : Nat} {base : Base}
    (fromPlay : task.FromPlay bases boards) (sets : task.Sets player baseId)
    (found : bases baseId = some base) : SetInPlay bases boards player base ∧
      ∀ ability, .battle ability ∈ base.abilities → InPlay bases boards player ability := by
  have named : ∃ playerIndex side ability, player = playerOn playerIndex side ∧
      InPlay bases boards playerIndex ability ∧ setBase? ability = some (side, baseId) := by
    rcases sets with ⟨playerIndex, side, _, _, same, acts⟩ | ⟨playerIndex, _, _, _, side, same, rfl⟩
    · obtain ⟨ability, inPlay, names⟩ := fromPlay.act acts
      exact ⟨playerIndex, side, ability, same, inPlay, by simp [setBase?, names]⟩
    · obtain ⟨ability, inPlay, names⟩ := fromPlay
      exact ⟨playerIndex, side, ability, same, inPlay, names⟩
  obtain ⟨playerIndex, side, ability, rfl, inPlay, names⟩ := named
  exact ⟨⟨playerIndex, ability, side, baseId, inPlay, names, rfl, found⟩,
    fun other listed => inPlay.set names found listed⟩

/-- The emos of a battle stay as they may be. -/
theorem keptBy_fielded {env : Env} {task : Task}
    (steady : ∀ player, Steady env.emoBases boards player)
    (few : FewCounted env.emoBases boards) (fromPlay : task.FromPlay env.emoBases boards) :
    KeptBy env task (Fielded env.emoBases boards) where
  stats emo _ _ := ⟨emo.inPlay, emo.ordered, emo.few⟩
  count _ emo := ⟨emo.inPlay, emo.ordered, emo.few⟩
  shield abilityIndex emo :=
    ⟨fun ability listed => emo.inPlay ability (List.mem_of_mem_eraseIdx listed),
      emo.ordered.sublist (List.eraseIdx_sublist _ _),
      Nat.le_trans (List.length_eraseIdx_le _ _) emo.few⟩
  ability {playerIndex _ added _ _ _} acts room emo := by
    obtain ⟨ability, inPlay, names⟩ := fromPlay.act acts
    have adds : (normalAction? ability).bind addedAbility? = some added := by rw [names]; rfl
    refine ⟨fun other listed => ?_, ?_, ?_⟩
    · rcases List.mem_append.mp listed with old | new
      · exact emo.inPlay other old
      · cases List.mem_singleton.mp new
        exact inPlay.added adds
    · refine List.pairwise_append.mpr ⟨emo.ordered, List.pairwise_singleton _ _, ?_⟩
      intro first old second new action later isFirst isSecond uses
      cases List.mem_singleton.mp new
      cases isSecond
      subst isFirst
      exact (steady playerIndex).added ability later action inPlay adds uses
        (emo.inPlay _ old)
    · rw [List.length_append]
      exact room
  set _ _ sets found _ := by
    obtain ⟨inPlay, listed⟩ := fromPlay.sets sets found
    exact ⟨listed, (steady _).newEmos _ inPlay, few.newEmos _ _ inPlay⟩

/-- Where no ability in play damages all emos of the player, nothing makes one
of them retire. -/
theorem steady_of_unharmed {player : PlayerIndex}
    (unharmed : ∀ playerIndex ability side damage, InPlay bases boards playerIndex ability →
      Executes bases boards playerIndex ability (.damageAll side damage) →
        player ≠ playerOn playerIndex side) : Steady bases boards player := by
  have harmless : ∀ {ability action}, InPlay bases boards player ability →
      Executes bases boards player ability action →
        ¬ Deadly bases boards player player action := by
    rintro ability action inPlay executes ⟨event, brings, leads⟩
    -- Whatever brings the retirement about would be in play.
    have brought : ∃ playerIndex ability action, InPlay bases boards playerIndex ability ∧
        Executes bases boards playerIndex ability action ∧
        Brings playerIndex action (.retired player) := by
      rcases Relation.ReflTransGen.cases_tail leads with same | ⟨_, _, follows⟩
      · exact ⟨player, ability, action, inPlay, executes, same ▸ brings⟩
      · obtain ⟨playerIndex, ability, action, inPlay, _, executes, brings⟩ := follows
        exact ⟨playerIndex, ability, action, inPlay, executes, brings⟩
    obtain ⟨playerIndex, other, damaging, otherInPlay, comesTo, brings⟩ := brought
    generalize retirement : Event.retired player = event at brings
    cases brings with
    | retired =>
        cases retirement
        exact unharmed playerIndex other _ _ otherInPlay comesTo rfl
    | setEmo | setEmosByAttackDiv | shieldRemoved => cases retirement
  have own : ∀ {action}, InPlay bases boards player (.general (.asOneself .retire action)) →
      ¬ Deadly bases boards player player action := fun inPlay => harmless inPlay rfl
  have ordered : ∀ {abilities : List Ability},
      (∀ ability, .battle ability ∈ abilities → InPlay bases boards player ability) →
        Ordered bases boards player abilities := by
    intro abilities inPlay
    refine List.Pairwise.imp_of_mem (fun {first _} isFirst _ _ action _ isRetire _ _ => ?_)
      (List.pairwise_of_forall fun _ _ => trivial)
    subst isRetire
    exact own (inPlay _ isFirst)
  refine ⟨fun ability action inPlay _ => harmless inPlay,
    fun emo member => ordered fun ability listed => .listed member listed, ?_,
    fun _ _ action _ _ _ => own, fun _ _ _ action _ _ _ => own⟩
  rintro base ⟨playerIndex, ability, side, baseId, inPlay, sets, rfl, found⟩
  exact ordered fun other listed => inPlay.set sets found listed

end EmojiBattler.Mtc.Battle
