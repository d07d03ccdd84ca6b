import EmojiBattler.Battle.Amounts
import EmojiBattler.Front.Elements

/-! # The battle on the page

The component `MtcBattleBoards` builds both boards once and then changes their
elements log by log.  Equal changes of stats in a row are animated at once, and
end in any order. -/

namespace EmojiBattler.Front.MtcBattleBoards

open EmojiBattler.Emo EmojiBattler.Mtc
open EmojiBattler.Emo.Ability.Battle (Special)
open EmojiBattler.Mtc.Battle (ShownBoards LogFits Regular RegularBases RegularBoards Log
  switchPlayerIndex changeAttributes)
open Function (update)
open Replay (foldlM_perm)

/-! ## Boards -/

abbrev Boards := PlayerIndex → BoardElement

/-- What is done to the element of a board. -/
def onBoard (boards : Boards) (playerIndex : PlayerIndex)
    (change : BoardElement → Except PageError BoardElement) : Except PageError Boards := do
  let boardElement ← change (boards playerIndex)
  return update boards playerIndex boardElement

def setupBoards (names : EmojiNames) (emoBases : Bases)
    (playerBoard rivalBoard : List (Nat × Attributes)) : Except PageError Boards := do
  let playerBoardElement ← setupBoard names emoBases playerBoard
  let rivalBoardElement ← setupBoard names emoBases rivalBoard
  return fun
    | .zero => playerBoardElement
    | .one => rivalBoardElement

def attack (boards : Boards) (attackPlayerIndex : PlayerIndex)
    (attackEmoIndex defenseEmoIndex : Nat) : Except PageError Boards := do
  let _ ← getChildDivByIndex (boards attackPlayerIndex) attackEmoIndex
  let _ ← getChildDivByIndex (boards (switchPlayerIndex attackPlayerIndex)) defenseEmoIndex
  return boards

def damage (boards : Boards) (playerIndex : PlayerIndex) (emoIndex health : Nat) :
    Except PageError Boards :=
  onBoard boards playerIndex fun boardElement =>
    changeChild boardElement emoIndex fun emoElement =>
      return updateEmoStat emoElement .health health

def remove (boards : Boards) (playerIndex : PlayerIndex) (emoIndex : Nat) :
    Except PageError Boards :=
  onBoard boards playerIndex fun boardElement => removeEmoFromBoard boardElement emoIndex

def add (names : EmojiNames) (emoBases : Bases) (boards : Boards) (playerIndex : PlayerIndex)
    (emoIndex baseId : Nat) (attributes : Attributes) : Except PageError Boards :=
  onBoard boards playerIndex fun boardElement =>
    addEmoToBoard names emoBases boardElement baseId attributes emoIndex

def addBattleAbility (names : EmojiNames) (emoBases : Bases) (boards : Boards)
    (playerIndex : PlayerIndex) (emoIndex : Nat) (ability : Ability.Battle) (isEmoTriple : Bool) :
    Except PageError Boards :=
  onBoard boards playerIndex fun boardElement =>
    changeChild boardElement emoIndex fun emoElement => do
      let emoElement ← addInfoAbility names emoBases emoElement (.battle ability) isEmoTriple
      match ability with
      | .special special => addSpecial emoElement special
      | .general _ => return emoElement

def removeBattleAbility (boards : Boards) (playerIndex : PlayerIndex)
    (emoIndex abilityIndex : Nat) (ability : Ability.Battle) : Except PageError Boards :=
  onBoard boards playerIndex fun boardElement =>
    changeChild boardElement emoIndex fun emoElement => do
      let emoElement ← removeInfoAbility emoElement abilityIndex
      match ability with
      | .special special => removeSpecial emoElement special
      | .general _ => return emoElement

/-! ## Changes of stats -/

/-- The fields that `mtc_battle_Log_IncreaseStats` and
`mtc_battle_Log_DecreaseStats` have both. -/
structure UpdatingStats where
  playerIndex : PlayerIndex
  emoIndex : Nat
  attack : Nat
  health : Nat
  calculatedAttack : Nat
  calculatedHealth : Nat
deriving DecidableEq

def asIncreaseStats? : Log → Option UpdatingStats
  | .increaseStats playerIndex emoIndex attack health calculatedAttack calculatedHealth =>
      some { playerIndex, emoIndex, attack, health, calculatedAttack, calculatedHealth }
  | _ => none

def asDecreaseStats? : Log → Option UpdatingStats
  | .decreaseStats playerIndex emoIndex attack health calculatedAttack calculatedHealth =>
      some { playerIndex, emoIndex, attack, health, calculatedAttack, calculatedHealth }
  | _ => none

/-- `increaseStats` and `decreaseStats`, which differ in colour. -/
def changeStats (boards : Boards) (params : UpdatingStats) : Except PageError Boards :=
  onBoard boards params.playerIndex fun boardElement =>
    updateStats boardElement params.emoIndex params.attack params.health params.calculatedAttack
      params.calculatedHealth

/-- In which order the updates that are awaited together change the page, by
the log that ends their batch. -/
structure Schedule where
  order : Nat → List UpdatingStats → List UpdatingStats
  perm : ∀ i params, (order i params).Perm params

/-- Whether the next update is awaited together with the current one. -/
def joins (current : UpdatingStats) (params : List UpdatingStats) (next : UpdatingStats) : Bool :=
  current.playerIndex = next.playerIndex && current.attack = next.attack &&
    current.health = next.health && current.emoIndex ≠ next.emoIndex &&
    !(params.map UpdatingStats.emoIndex).contains next.emoIndex

/-- Returns the boards and the params that wait. -/
def updateStatsBatch (order : List UpdatingStats → List UpdatingStats) (boards : Boards)
    (current : UpdatingStats) (next : Option UpdatingStats) (params : List UpdatingStats) :
    Except PageError (Boards × List UpdatingStats) := do
  if next.any (joins current params) then return (boards, params ++ [current])
  else if 0 < params.length then
    let boards ← (order (params ++ [current])).foldlM changeStats boards
    return (boards, [])
  else
    let boards ← changeStats boards current
    return (boards, params)

/-! ## The animation -/

def animateLog (schedule : Schedule) (names : EmojiNames) (emoBases : Bases) (i : Nat) (l : Log)
    (next : Option Log) (boards : Boards) (params : List UpdatingStats) :
    Except PageError (Boards × List UpdatingStats) :=
  match l with
  | .attack attackPlayerIndex attackEmoIndex defenseEmoIndex => do
      return (← attack boards attackPlayerIndex attackEmoIndex defenseEmoIndex, params)
  | .damage playerIndex emoIndex _ health => do
      return (← damage boards playerIndex emoIndex health, params)
  | .remove playerIndex emoIndex => do
      return (← remove boards playerIndex emoIndex, params)
  | .add playerIndex emoIndex baseId attributes => do
      return (← add names emoBases boards playerIndex emoIndex baseId attributes, params)
  | .increaseStats playerIndex emoIndex attack health calculatedAttack calculatedHealth =>
      updateStatsBatch (schedule.order i) boards
        { playerIndex, emoIndex, attack, health, calculatedAttack, calculatedHealth }
        (next.bind asIncreaseStats?) params
  | .decreaseStats playerIndex emoIndex attack health calculatedAttack calculatedHealth =>
      updateStatsBatch (schedule.order i) boards
        { playerIndex, emoIndex, attack, health, calculatedAttack, calculatedHealth }
        (next.bind asDecreaseStats?) params
  | .addBattleAbility playerIndex emoIndex ability isEmoTriple => do
      return (← addBattleAbility names emoBases boards playerIndex emoIndex ability isEmoTriple,
        params)
  | .removeBattleAbility playerIndex emoIndex abilityIndex ability => do
      return (← removeBattleAbility boards playerIndex emoIndex abilityIndex ability, params)

/-- The loop over the logs, from the `i`-th one. -/
def animateLogs (schedule : Schedule) (names : EmojiNames) (emoBases : Bases) :
    Nat → List Log → Boards → List UpdatingStats → Except PageError Boards
  | _, [], boards, _ => return boards
  | i, l :: rest, boards, params => do
      let (boards, params) ← animateLog schedule names emoBases i l rest.head? boards params
      animateLogs schedule names emoBases (i + 1) rest boards params

def animate (schedule : Schedule) (names : EmojiNames) (emoBases : Bases) (playerBoard : Board)
    (rivalBoard : GhostBoard) (logs : List Log) : Except PageError Boards := do
  let boards ←
    setupBoards names emoBases (boardEntries playerBoard) (ghostBoardEntries rivalBoard)
  animateLogs schedule names emoBases 0 logs boards []

/-! ## What the page shows -/

variable {names : EmojiNames} {emoBases : Bases} {elements : Boards} {boards : ShownBoards}
variable {playerIndex : PlayerIndex} {emoIndex : Nat} {emo : GhostBoardEmo}

/-- The page looks as if the boards were just set up. -/
def Shows (names : EmojiNames) (emoBases : Bases) (elements : Boards) (boards : ShownBoards) :
    Prop :=
  ∀ playerIndex,
    ShowsBoard names emoBases (elements playerIndex) (ghostBoardEntries (boards playerIndex))

theorem setupBoards_eq_ok_iff :
    setupBoards names emoBases (ghostBoardEntries (boards .zero))
        (ghostBoardEntries (boards .one)) = .ok elements ↔
      Shows names emoBases elements boards := by
  simp only [setupBoards, Result.bind_eq_ok_iff, Result.pure_eq_ok_iff, setupBoard_eq_ok_iff]
  constructor
  · intro built
    obtain ⟨playerBoardElement, player, rivalBoardElement, rival, rfl⟩ := built
    intro playerIndex
    cases playerIndex with
    | zero => exact player
    | one => exact rival
  · intro shows
    refine ⟨elements .zero, shows .zero, elements .one, shows .one, ?_⟩
    funext playerIndex
    cases playerIndex with
    | zero | one => rfl

theorem getElem?_ghostBoardEntries {board : GhostBoard} (listed : board[emoIndex]? = some emo) :
    (ghostBoardEntries board)[emoIndex]? = some (emo.baseId, emo.attributes) := by
  rw [ghostBoardEntries, List.getElem?_map, listed, Option.map_some]

namespace Shows

theorem onBoard (shows : Shows names emoBases elements boards)
    {change : BoardElement → Except PageError BoardElement} {board : GhostBoard}
    (changed : ∃ after, change (elements playerIndex) = .ok after ∧
      ShowsBoard names emoBases after (ghostBoardEntries board)) :
    ∃ after, onBoard elements playerIndex change = .ok after ∧
      Shows names emoBases after (update boards playerIndex board) := by
  obtain ⟨boardElement, performed, shown⟩ := changed
  refine ⟨update elements playerIndex boardElement, ?_, fun other => ?_⟩
  · rw [MtcBattleBoards.onBoard, performed]
    rfl
  · by_cases own : other = playerIndex
    · subst own
      simpa using shown
    · simpa [own] using shows other

/-- An element is changed like the emo that it shows. -/
theorem change (shows : Shows names emoBases elements boards)
    (listed : (boards playerIndex)[emoIndex]? = some emo) {attributes : Attributes}
    {change : EmoElement → Except PageError EmoElement}
    (texts : ∀ ability ∈ attributes.abilities,
      ability ∈ emo.attributes.abilities ∨ HasText names emoBases ability)
    (changed : ∀ base, change (.of base emo.attributes) = .ok (.of base attributes)) :
    ∃ after, MtcBattleBoards.onBoard elements playerIndex (changeChild · emoIndex change) =
        .ok after ∧
      Shows names emoBases after (update boards playerIndex
        ((boards playerIndex).set emoIndex { emo with attributes })) := by
  refine shows.onBoard ?_
  have changes := (shows playerIndex).change (getElem?_ghostBoardEntries listed) texts changed
  rwa [ghostBoardEntries, List.map_set]

end Shows

theorem changeAttributes_eq_some_iff {change : Attributes → Option Attributes}
    {next : ShownBoards} :
    changeAttributes boards playerIndex emoIndex change = some next ↔
      ∃ emo, (boards playerIndex)[emoIndex]? = some emo ∧ ∃ attributes,
        change emo.attributes = some attributes ∧
          update boards playerIndex ((boards playerIndex).set emoIndex { emo with attributes }) =
            next := by
  simp [changeAttributes, Option.bind_eq_some_iff]

/-! ## Single logs -/

/-- The page has the texts of what the log adds, and a mark for its special
ability. -/
def isShowable (names : EmojiNames) (emoBases : Bases) : Log → Bool
  | .add _ _ baseId attributes => (element? names emoBases (baseId, attributes)).isSome
  | .addBattleAbility _ _ ability _ =>
      ability ≠ .special .attackLowestAttack &&
        (buildEmoAbilityText names emoBases (.battle ability)).toOption.isSome
  | _ => true

theorem isShowable_addBattleAbility {ability : Ability.Battle} {isEmoTriple : Bool} :
    isShowable names emoBases (.addBattleAbility playerIndex emoIndex ability isEmoTriple) =
        true ↔
      ability ≠ .special .attackLowestAttack ∧ HasText names emoBases (.battle ability) := by
  have text : (buildEmoAbilityText names emoBases (.battle ability)).toOption.isSome = true ↔
      HasText names emoBases (.battle ability) := by
    rw [HasText]
    cases buildEmoAbilityText names emoBases (.battle ability) <;> simp [Except.toOption]
  rw [isShowable, Bool.and_eq_true, text, decide_eq_true_eq]

theorem addInfoAbility_of {base : Base} {attributes : Attributes} {ability : Ability}
    (text : HasText names emoBases ability) :
    addInfoAbility names emoBases (.of base attributes) ability attributes.isTriple =
      .ok { EmoElement.of base attributes with
        infoAbilities := (attributes.abilities ++ [ability]).map fun ability =>
          (ability, attributes.isTriple) } := by
  rw [addInfoAbility, createInfoAbilityTr_eq_ok_iff.mpr ⟨text, rfl⟩, List.map_append]
  rfl

theorem addBattleAbility_shows {next : ShownBoards} {ability : Ability.Battle}
    {isEmoTriple : Bool} (shows : Shows names emoBases elements boards)
    (fits : LogFits emoBases boards (.addBattleAbility playerIndex emoIndex ability isEmoTriple))
    (showable : isShowable names emoBases
      (.addBattleAbility playerIndex emoIndex ability isEmoTriple) = true)
    (applied : Battle.animate boards (.addBattleAbility playerIndex emoIndex ability isEmoTriple) =
      some next) :
    ∃ after, addBattleAbility names emoBases elements playerIndex emoIndex ability isEmoTriple =
        .ok after ∧
      Shows names emoBases after next := by
  obtain ⟨marked, text⟩ := isShowable_addBattleAbility.mp showable
  simp only [Battle.animate, changeAttributes_eq_some_iff, Option.some.injEq] at applied
  obtain ⟨emo, listed, _, rfl, rfl⟩ := applied
  cases fits emo listed
  refine shows.change listed (fun other member => ?_) fun base => ?_
  · rcases List.mem_append.mp member with old | new
    · exact .inl old
    · rw [List.mem_singleton.mp new]
      exact .inr text
  rw [addInfoAbility_of text]
  cases ability with
  | general general =>
      rw [EmoElement.of, EmoElement.of, createSpecials_append]
      rfl
  | special special =>
      rw [EmoElement.of, EmoElement.of, createSpecials_append]
      cases special with
      | attackLowestAttack => exact absurd rfl marked
      | shield | attractive => rfl

/-- The page throws where it has no text or no mark. -/
theorem addBattleAbility_throws {next : ShownBoards} {ability : Ability.Battle}
    {isEmoTriple : Bool} (shows : Shows names emoBases elements boards)
    (unshowable : isShowable names emoBases
      (.addBattleAbility playerIndex emoIndex ability isEmoTriple) = false)
    (applied : Battle.animate boards (.addBattleAbility playerIndex emoIndex ability isEmoTriple) =
      some next) :
    ∃ error, addBattleAbility names emoBases elements playerIndex emoIndex ability isEmoTriple =
      .error error := by
  simp only [Battle.animate, changeAttributes_eq_some_iff] at applied
  obtain ⟨emo, listed, _⟩ := applied
  obtain ⟨base, _, _, here⟩ := (shows playerIndex).found (getElem?_ghostBoardEntries listed)
  simp only [addBattleAbility, onBoard, changeChild, getChildDivByIndex, here, pure_bind,
    addInfoAbility, createInfoAbilityTr]
  cases text : buildEmoAbilityText names emoBases (.battle ability) with
  | error error => exact ⟨error, rfl⟩
  | ok _ =>
      have special : ability = .special .attackLowestAttack := by
        by_contra marked
        rw [isShowable_addBattleAbility.mpr ⟨marked, text⟩] at unshowable
        cases unshowable
      subst special
      exact ⟨_, rfl⟩

/-- The page throws where it cannot create an emo. -/
theorem add_throws {baseId : Nat} {attributes : Attributes}
    (unshowable : isShowable names emoBases (.add playerIndex emoIndex baseId attributes) =
      false) :
    ∃ error, add names emoBases elements playerIndex emoIndex baseId attributes =
      .error error := by
  cases created : createEmoWithBoardEmo names emoBases baseId attributes with
  | error error =>
      exact ⟨error, by rw [add, onBoard, addEmoToBoard, created]; rfl⟩
  | ok element =>
      rw [isShowable, element?, created] at unshowable
      cases unshowable

theorem removeBattleAbility_shows {next : ShownBoards} {abilityIndex : Nat}
    {ability : Ability.Battle} (shows : Shows names emoBases elements boards)
    (fits : LogFits emoBases boards
      (.removeBattleAbility playerIndex emoIndex abilityIndex ability))
    (applied : Battle.animate boards
      (.removeBattleAbility playerIndex emoIndex abilityIndex ability) = some next) :
    ∃ after, removeBattleAbility elements playerIndex emoIndex abilityIndex ability = .ok after ∧
      Shows names emoBases after next := by
  simp only [Battle.animate, changeAttributes_eq_some_iff] at applied
  obtain ⟨emo, listed, attributes, changed, rfl⟩ := applied
  obtain ⟨rfl, described⟩ := fits
  obtain ⟨own, gone⟩ := described emo listed
  have bound := (List.getElem?_eq_some_iff.mp own).1
  rw [if_pos bound] at changed
  cases changed
  refine shows.change listed (fun other member => .inl (List.mem_of_mem_eraseIdx member))
    fun base => ?_
  have others : .battle (.special .attractive) ∈ emo.attributes.abilities.eraseIdx abilityIndex ↔
      .battle (.special .attractive) ∈ emo.attributes.abilities := by
    refine ⟨List.mem_of_mem_eraseIdx, fun member => ?_⟩
    have here := (List.getElem_cons_eraseIdx_perm bound).mem_iff.mpr member
    rw [(List.getElem?_eq_some_iff.mp own).2] at here
    simpa using here
  have removed : removeInfoAbility (.of base emo.attributes) abilityIndex =
      .ok { EmoElement.of base emo.attributes with
        infoAbilities := (emo.attributes.abilities.map fun ability =>
          (ability, emo.attributes.isTriple)).eraseIdx abilityIndex } := by
    rw [removeInfoAbility, if_pos]
    · rfl
    · simpa [EmoElement.of] using bound
  rw [removed]
  simp [EmoElement.of, createSpecials_eq, removeSpecial, displaySpecial, List.eraseIdx_map, gone,
    others]

theorem length_ghostBoardEntries (board : GhostBoard) :
    (ghostBoardEntries board).length = board.length := List.length_map _

theorem attack_shows {attackPlayerIndex : PlayerIndex} {attackEmoIndex defenseEmoIndex : Nat}
    (shows : Shows names emoBases elements boards)
    (fits : LogFits emoBases boards (.attack attackPlayerIndex attackEmoIndex defenseEmoIndex)) :
    attack elements attackPlayerIndex attackEmoIndex defenseEmoIndex = .ok elements := by
  obtain ⟨attackBound, defenseBound⟩ := fits
  rw [← length_ghostBoardEntries] at attackBound defenseBound
  obtain ⟨attacker, attackFound⟩ := (shows _).child attackBound
  obtain ⟨defender, defenseFound⟩ := (shows _).child defenseBound
  rw [attack, attackFound, defenseFound]
  rfl

theorem damage_shows {next : ShownBoards} {damaged health : Nat}
    (shows : Shows names emoBases elements boards)
    (applied : Battle.animate boards (.damage playerIndex emoIndex damaged health) = some next) :
    ∃ after, damage elements playerIndex emoIndex health = .ok after ∧
      Shows names emoBases after next := by
  simp only [Battle.animate, changeAttributes_eq_some_iff, Option.some.injEq] at applied
  obtain ⟨emo, listed, _, rfl, rfl⟩ := applied
  exact shows.change listed (fun _ member => .inl member) fun base => rfl

theorem remove_shows {next : ShownBoards} (shows : Shows names emoBases elements boards)
    (applied : Battle.animate boards (.remove playerIndex emoIndex) = some next) :
    ∃ after, remove elements playerIndex emoIndex = .ok after ∧ Shows names emoBases after next := by
  simp only [Battle.animate, Option.ite_none_right_eq_some, Option.some.injEq] at applied
  obtain ⟨bound, rfl⟩ := applied
  rw [← length_ghostBoardEntries] at bound
  refine shows.onBoard ⟨_, ((shows playerIndex).remove bound).1, ?_⟩
  rw [ghostBoardEntries, ← List.eraseIdx_map]
  exact ((shows playerIndex).remove bound).2

theorem add_shows {next : ShownBoards} {baseId : Nat} {attributes : Attributes}
    (shows : Shows names emoBases elements boards)
    (showable : isShowable names emoBases (.add playerIndex emoIndex baseId attributes) = true)
    (applied : Battle.animate boards (.add playerIndex emoIndex baseId attributes) =
      some next) :
    ∃ after, add names emoBases elements playerIndex emoIndex baseId attributes = .ok after ∧
      Shows names emoBases after next := by
  obtain ⟨element, created⟩ := Option.isSome_iff_exists.mp showable
  simp only [Battle.animate, Option.ite_none_right_eq_some, Option.some.injEq] at applied
  obtain ⟨bound, rfl⟩ := applied
  rw [← length_ghostBoardEntries] at bound
  refine shows.onBoard ?_
  rw [ghostBoardEntries, List.map_insertIdx]
  exact (shows playerIndex).add bound created

/-! ## Batches -/

namespace UpdatingStats

/-- What the log of an update does to the boards of the battle. -/
def apply (boards : ShownBoards) (params : UpdatingStats) : Option ShownBoards :=
  changeAttributes boards params.playerIndex params.emoIndex fun attributes =>
    some { attributes with attack := params.calculatedAttack, health := params.calculatedHealth }

/-- `LogFits` of the log of an update. -/
def Fits (boards : ShownBoards) (params : UpdatingStats) : Prop :=
  ∀ emo, (boards params.playerIndex)[params.emoIndex]? = some emo →
    (params.attack = 0 → params.calculatedAttack = emo.attributes.attack) ∧
      (params.health = 0 → params.calculatedHealth = emo.attributes.health)

end UpdatingStats

variable {params ordered : List UpdatingStats} {current : UpdatingStats}

theorem changeStats_shows {next : ShownBoards} (shows : Shows names emoBases elements boards)
    (fits : current.Fits boards) (applied : current.apply boards = some next) :
    ∃ after, changeStats elements current = .ok after ∧ Shows names emoBases after next := by
  simp only [UpdatingStats.apply, changeAttributes_eq_some_iff, Option.some.injEq] at applied
  obtain ⟨emo, listed, _, rfl, rfl⟩ := applied
  obtain ⟨attackStays, healthStays⟩ := fits emo listed
  refine shows.onBoard ?_
  rw [ghostBoardEntries, List.map_set]
  exact (shows _).updateStats (getElem?_ghostBoardEntries listed) attackStays healthStays

theorem onBoard_bind (first second : BoardElement → Except PageError BoardElement) :
    (onBoard elements playerIndex first >>= (onBoard · playerIndex second)) =
      onBoard elements playerIndex fun boardElement => first boardElement >>= second := by
  simp only [onBoard, bind_assoc, pure_bind, Function.update_self, Function.update_idem]

/-- Updates of two elements of one board. -/
theorem changeStats_comm {first second : UpdatingStats} {after : Boards}
    (sameBoard : first.playerIndex = second.playerIndex)
    (apart : first.emoIndex ≠ second.emoIndex)
    (updated : (changeStats elements first >>= (changeStats · second)) = .ok after) :
    (changeStats elements second >>= (changeStats · first)) = .ok after := by
  simp only [changeStats, sameBoard, onBoard_bind] at updated ⊢
  rw [onBoard, Result.bind_eq_ok_iff] at updated ⊢
  obtain ⟨boardElement, changed, same⟩ := updated
  exact ⟨boardElement, changeChild_comm apart changed, same⟩

/-- A batch, whose updates end in any order. -/
theorem batch_shows {next : ShownBoards} (shows : Shows names emoBases elements boards)
    (followed : Replay.Follows UpdatingStats.apply UpdatingStats.Fits boards params next)
    (sameBoard : ∀ param ∈ params, param.playerIndex = playerIndex)
    (distinct : (params.map UpdatingStats.emoIndex).Nodup) (permuted : ordered.Perm params) :
    ∃ after, ordered.foldlM changeStats elements = .ok after ∧ Shows names emoBases after next := by
  have inOrder : ∃ after, params.foldlM changeStats elements = .ok after ∧
      Shows names emoBases after next := by
    clear sameBoard distinct permuted
    induction followed generalizing elements with
    | nil here => exact ⟨elements, rfl, shows⟩
    | cons fits applied _ ih =>
        obtain ⟨middle, updated, shown⟩ := changeStats_shows shows fits applied
        obtain ⟨after, performed, final⟩ := ih shown
        refine ⟨after, ?_, final⟩
        rw [List.foldlM_cons, updated]
        exact performed
  obtain ⟨after, performed, final⟩ := inOrder
  refine ⟨after, foldlM_perm permuted.symm (fun first listed second member here there => ?_)
    performed, final⟩
  by_cases same : first.emoIndex = second.emoIndex
  · cases List.inj_on_of_nodup_map distinct listed member same
    exact id
  · exact changeStats_comm ((sameBoard first listed).trans (sameBoard second member).symm) same

/-! ## The loop -/

inductive PositiveOrNegative where
  | positive
  | negative

def asStats? : PositiveOrNegative → Log → Option UpdatingStats
  | .positive => asIncreaseStats?
  | .negative => asDecreaseStats?

/-- Params wait only for the update that comes next. -/
inductive Waits (first : ShownBoards) :
    List UpdatingStats → ShownBoards → List Log → Prop
  | alone (logs : List Log) : Waits first [] first logs
  | batch {sign : PositiveOrNegative} {params : List UpdatingStats} {start : ShownBoards}
      {current : UpdatingStats} {l : Log} {rest : List Log}
      (isStats : asStats? sign l = some current)
      (followed : Replay.Follows UpdatingStats.apply UpdatingStats.Fits first params start)
      (sameBoard : ∀ param ∈ params, param.playerIndex = current.playerIndex)
      (distinct : ((params ++ [current]).map UpdatingStats.emoIndex).Nodup) :
      Waits first params start (l :: rest)

variable {first start next : ShownBoards} {l : Log} {rest : List Log}

theorem Waits.plain (waits : Waits first params start (l :: rest))
    (plain : ∀ sign, asStats? sign l = none) : params = [] ∧ start = first := by
  cases waits with
  | alone => exact ⟨rfl, rfl⟩
  | batch isStats => cases (plain _).symm.trans isStats

theorem Waits.joined {sign : PositiveOrNegative} (waits : Waits first params start (l :: rest))
    (isStats : asStats? sign l = some current) :
    Replay.Follows UpdatingStats.apply UpdatingStats.Fits first params start ∧
      (∀ param ∈ params, param.playerIndex = current.playerIndex) ∧
      ((params ++ [current]).map UpdatingStats.emoIndex).Nodup := by
  cases waits with
  | alone => exact ⟨.nil _, by simp, by simp⟩
  | @batch other _ _ same _ _ again followed sameBoard distinct =>
      have unique : same = current := by
        cases l <;> cases sign <;> cases other <;> cases isStats <;> cases again
        all_goals rfl
      exact unique ▸ ⟨followed, sameBoard, distinct⟩

theorem updateStatsBatch_step (sign : PositiveOrNegative)
    {order : List UpdatingStats → List UpdatingStats}
    (permutes : ∀ params, (order params).Perm params) (shows : Shows names emoBases elements first)
    (isStats : asStats? sign l = some current)
    (waits : Waits first params start (l :: rest)) (fits : current.Fits start)
    (applied : current.apply start = some next) :
    ∃ after waiting shown, updateStatsBatch order elements current
        (rest.head?.bind (asStats? sign)) params = .ok (after, waiting) ∧
      Shows names emoBases after shown ∧ Waits shown waiting next rest := by
  obtain ⟨followed, sameBoard, distinct⟩ := waits.joined isStats
  have all := followed.append (.single fits applied)
  have onBoard : ∀ param ∈ params ++ [current], param.playerIndex = current.playerIndex := by
    intro param member
    rcases List.mem_append.mp member with old | new
    · exact sameBoard param old
    · rw [List.mem_singleton.mp new]
  unfold updateStatsBatch
  split
  · rename_i joined
    obtain ⟨following, isNext, joins⟩ := (Option.any_eq_true _ _).mp joined
    obtain ⟨nextLog, head, nextStats⟩ := Option.bind_eq_some_iff.mp isNext
    obtain ⟨others, rfl⟩ := List.head?_eq_some_iff.mp head
    simp only [MtcBattleBoards.joins, Bool.and_eq_true, decide_eq_true_eq, Bool.not_eq_true',
      List.contains_eq_mem, decide_eq_false_iff_not] at joins
    obtain ⟨⟨⟨⟨samePlayer, _⟩, _⟩, apart⟩, fresh⟩ := joins
    refine ⟨elements, params ++ [current], first, rfl, shows, .batch nextStats all ?_ ?_⟩
    · intro param member
      rw [onBoard param member, samePlayer]
    · rw [List.map_append, List.nodup_append]
      refine ⟨distinct, by simp, fun index member other single => ?_⟩
      obtain rfl := List.mem_singleton.mp single
      rw [List.map_append, List.mem_append] at member
      rcases member with old | new
      · exact fun same => fresh (same ▸ old)
      · rwa [List.mem_singleton.mp new]
  · split
    · obtain ⟨after, performed, final⟩ := batch_shows shows all onBoard distinct (permutes _)
      exact ⟨after, [], next, by rw [performed]; rfl, final, .alone rest⟩
    · rename_i none
      obtain rfl := List.eq_nil_of_length_eq_zero (Nat.eq_zero_of_not_pos none)
      cases followed
      obtain ⟨after, updated, final⟩ := changeStats_shows shows fits applied
      exact ⟨after, [], next, by rw [updated]; rfl, final, .alone rest⟩

/-- A log is animated as it is read, or waits to be. -/
theorem animateLog_step (schedule : Schedule) (i : Nat) (shows : Shows names emoBases elements first)
    (waits : Waits first params start (l :: rest)) (fits : LogFits emoBases start l)
    (applied : Battle.animate start l = some next)
    (showable : isShowable names emoBases l = true) :
    ∃ after waiting shown, animateLog schedule names emoBases i l rest.head? elements params =
        .ok (after, waiting) ∧
      Shows names emoBases after shown ∧ Waits shown waiting next rest := by
  have alone {after : Boards} {animated : Except PageError Boards}
      (performed : animated = .ok after) (shown : Shows names emoBases after next) :
      ∃ last waiting shown, (animated >>= fun boards => pure (boards, [])) = .ok (last, waiting) ∧
        Shows names emoBases last shown ∧ Waits shown waiting next rest :=
    ⟨after, [], next, by rw [performed]; rfl, shown, .alone rest⟩
  cases l with
  | increaseStats =>
      exact updateStatsBatch_step .positive (schedule.perm i) shows rfl waits fits applied
  | decreaseStats =>
      exact updateStatsBatch_step .negative (schedule.perm i) shows rfl waits fits applied
  | attack =>
      obtain ⟨rfl, rfl⟩ := waits.plain fun sign => by cases sign <;> rfl
      cases applied
      exact alone (attack_shows shows fits) shows
  | damage =>
      obtain ⟨rfl, rfl⟩ := waits.plain fun sign => by cases sign <;> rfl
      obtain ⟨after, performed, final⟩ := damage_shows shows applied
      exact alone performed final
  | remove =>
      obtain ⟨rfl, rfl⟩ := waits.plain fun sign => by cases sign <;> rfl
      obtain ⟨after, performed, final⟩ := remove_shows shows applied
      exact alone performed final
  | add =>
      obtain ⟨rfl, rfl⟩ := waits.plain fun sign => by cases sign <;> rfl
      obtain ⟨after, performed, final⟩ := add_shows shows showable applied
      exact alone performed final
  | addBattleAbility =>
      obtain ⟨rfl, rfl⟩ := waits.plain fun sign => by cases sign <;> rfl
      obtain ⟨after, performed, final⟩ := addBattleAbility_shows shows fits showable applied
      exact alone performed final
  | removeBattleAbility =>
      obtain ⟨rfl, rfl⟩ := waits.plain fun sign => by cases sign <;> rfl
      obtain ⟨after, performed, final⟩ := removeBattleAbility_shows shows fits applied
      exact alone performed final

theorem animateLog_throws (schedule : Schedule) (i : Nat) (following : Option Log)
    (shows : Shows names emoBases elements first) (waits : Waits first params start (l :: rest))
    (applied : Battle.animate start l = some next)
    (unshowable : isShowable names emoBases l = false) :
    ∃ error, animateLog schedule names emoBases i l following elements params = .error error := by
  cases l with
  | add =>
      obtain ⟨error, failed⟩ := @add_throws _ _ elements _ _ _ _ unshowable
      exact ⟨error, by rw [animateLog, failed]; rfl⟩
  | addBattleAbility =>
      obtain ⟨rfl, rfl⟩ := waits.plain fun sign => by cases sign <;> rfl
      obtain ⟨error, failed⟩ := addBattleAbility_throws shows unshowable applied
      exact ⟨error, by rw [animateLog, failed]; rfl⟩
  | _ => cases unshowable

/-- What the loop ends with. -/
structure Animates (schedule : Schedule) (names : EmojiNames) (emoBases : Bases) (i : Nat)
    (logs : List Log) (elements : Boards) (params : List UpdatingStats) (last : ShownBoards) :
    Prop where
  shows : logs.all (isShowable names emoBases) = true → ∃ after,
    animateLogs schedule names emoBases i logs elements params = .ok after ∧
      Shows names emoBases after last
  throws : logs.all (isShowable names emoBases) = false → ∃ error,
    animateLogs schedule names emoBases i logs elements params = .error error

theorem animateLogs_animates (schedule : Schedule) {logs : List Log} {last : ShownBoards}
    (followed : Replay.Follows Battle.animate (LogFits emoBases) start logs last) {i : Nat}
    (shows : Shows names emoBases elements first) (waits : Waits first params start logs) :
    Animates schedule names emoBases i logs elements params last := by
  induction followed generalizing i elements first params with
  | nil here =>
      cases waits
      exact ⟨fun _ => ⟨elements, rfl, shows⟩, fun unshowable => by cases unshowable⟩
  | @cons start next last l rest fits applied _ ih =>
      cases showable : isShowable names emoBases l with
      | false =>
          refine ⟨fun clean => ?_, fun _ => ?_⟩
          · simp [showable] at clean
          · obtain ⟨error, failed⟩ :=
              animateLog_throws schedule i rest.head? shows waits applied showable
            exact ⟨error, by rw [animateLogs, failed]; rfl⟩
      | true =>
          obtain ⟨after, waiting, shown, performed, afterShows, afterWaits⟩ :=
            animateLog_step schedule i shows waits fits applied showable
          have performs : animateLogs schedule names emoBases i (l :: rest) elements params =
              animateLogs schedule names emoBases (i + 1) rest after waiting := by
            rw [animateLogs, performed]
            rfl
          have others : (l :: rest).all (isShowable names emoBases) =
              rest.all (isShowable names emoBases) := by
            rw [List.all_cons, showable, Bool.true_and]
          obtain ⟨finishes, throws⟩ := ih afterShows afterWaits (i := i + 1)
          exact ⟨by rwa [performs, others], by rwa [performs, others]⟩

/-! ## Marches -/

theorem buildBattleEmos_shown {env : Env} {entries : List (Nat × Attributes)}
    {generatedIds last : Nat} {emos : List Battle.BattleEmo} (keyed : Shop.KeyedBases env.emoBases)
    (built : buildBattleEmos env entries generatedIds = .ok (emos, last)) :
    ghostBoardEntries (emos.map Battle.BattleEmo.shown) = entries := by
  induction entries generalizing generatedIds emos with
  | nil =>
      cases built
      rfl
  | cons entry rest ih =>
      obtain ⟨baseId, attributes⟩ := entry
      simp only [buildBattleEmos, Result.bind_eq_ok_iff, Result.pure_eq_ok_iff, Prod.mk.injEq,
        Emo.Bases.find_eq_ok_iff] at built
      obtain ⟨base, found, ⟨others, _⟩, built, rfl, rfl⟩ := built
      have same := ih built
      obtain rfl := keyed baseId base found
      simp only [ghostBoardEntries, List.map_cons] at same ⊢
      rw [same]
      rfl

/-- The page can show the emos of both boards and all logs. -/
def Showable (names : EmojiNames) (emoBases : Bases) (board : Board) (ghostBoard : GhostBoard)
    (logs : List Log) : Prop :=
  (∀ entry ∈ boardEntries board ++ ghostBoardEntries ghostBoard,
    (element? names emoBases entry).isSome) ∧
  ∀ log ∈ logs, isShowable names emoBases log = true

theorem setupBoards_succeeds_iff {playerBoard rivalBoard : List (Nat × Attributes)} :
    (∃ elements, setupBoards names emoBases playerBoard rivalBoard = .ok elements) ↔
      ∀ entry ∈ playerBoard ++ rivalBoard, (element? names emoBases entry).isSome := by
  rw [List.forall_mem_append, ← setupBoard_succeeds_iff, ← setupBoard_succeeds_iff]
  simp only [setupBoards, Result.bind_eq_ok_iff, Result.pure_eq_ok_iff]
  constructor
  · rintro ⟨_, playerElement, player, rivalElement, rival, _⟩
    exact ⟨⟨playerElement, player⟩, rivalElement, rival⟩
  · rintro ⟨⟨playerElement, player⟩, rivalElement, rival⟩
    exact ⟨_, playerElement, player, rivalElement, rival, rfl⟩

/-- The logs of a march on regular boards lead the page from the initial boards
to the final ones. -/
theorem march_animates {env : Env} {fuel seed generatedIds grade0 grade1 : Nat} {board : Board}
    {ghostBoard : GhostBoard} {state : Battle.St env} (schedule : Schedule) (names : EmojiNames)
    (enabled : env.isViewLogsEnabled = true) (bases : RegularBases env.emoBases)
    (regular : ∀ entry ∈ boardEntries board ++ ghostBoardEntries ghostBoard, Regular entry.2)
    (marched : marchPvg env fuel board ghostBoard seed generatedIds =
      pure (grade0, grade1, state)) :
    (Showable names env.emoBases board ghostBoard state.logs → ∃ elements,
      animate schedule names env.emoBases board ghostBoard state.logs = .ok elements ∧
        Shows names env.emoBases elements state.boards.shown) ∧
    (¬ Showable names env.emoBases board ghostBoard state.logs → ∃ error,
      animate schedule names env.emoBases board ghostBoard state.logs = .error error) := by
  simp only [marchPvg, Fueled.bind_eq_pure_iff, Fueled.of_eq_pure_iff] at marched
  obtain ⟨⟨emos0, ids0⟩, built0, ⟨emos1, ids1⟩, built1, marched⟩ := marched
  have entries0 := buildBattleEmos_shown bases.keyed built0
  have entries1 := buildBattleEmos_shown bases.keyed built1
  have regularBoards : RegularBoards ⟨emos0, emos1⟩ := by
    intro playerIndex emo member
    have listed : (emo.baseId, emo.attributes) ∈
        boardEntries board ++ ghostBoardEntries ghostBoard := by
      rw [← entries0, ← entries1]
      cases playerIndex with
      | zero => exact List.mem_append_left _ (List.mem_map_of_mem (List.mem_map_of_mem member))
      | one => exact List.mem_append_right _ (List.mem_map_of_mem (List.mem_map_of_mem member))
    exact regular _ listed
  rw [Showable, ← setupBoards_succeeds_iff, ← List.all_eq_true]
  cases built : setupBoards names env.emoBases (boardEntries board)
      (ghostBoardEntries ghostBoard) with
  | error error =>
      refine ⟨fun showable => ?_, fun _ => ⟨error, by rw [animate, built]; rfl⟩⟩
      obtain ⟨⟨_, succeeded⟩, _⟩ := showable
      cases succeeded
  | ok elements =>
      have initially : Shows names env.emoBases elements
          (Battle.BattleBoards.shown ⟨emos0, emos1⟩) := by
        rw [← entries0, ← entries1] at built
        exact setupBoards_eq_ok_iff.mp built
      have performs : animate schedule names env.emoBases board ghostBoard state.logs =
          animateLogs schedule names env.emoBases 0 state.logs elements [] := by
        rw [animate, built]
        rfl
      obtain ⟨shows, throws⟩ := animateLogs_animates schedule
        (Battle.march_told enabled bases regularBoards marched) (i := 0) initially (.alone _)
      rw [performs]
      refine ⟨fun showable => shows showable.2, fun unshowable => throws ?_⟩
      rw [Bool.eq_false_iff]
      exact fun showable => unshowable ⟨⟨elements, rfl⟩, showable⟩

end EmojiBattler.Front.MtcBattleBoards
