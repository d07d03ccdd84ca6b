import EmojiBattler.Mtc.DataErrors
import EmojiBattler.Battle.Organizer

/-! # The elements of emos

The pages build the element of an emo once and change it from then on.  Of the
texts of names, grades and abilities only the lookups are kept that may fail, and
of the styles only whether a mark is displayed. -/

namespace EmojiBattler.Front

open EmojiBattler.Emo EmojiBattler.Mtc
open EmojiBattler.Emo.Ability (Battle Shop)
open EmojiBattler.Emo.Ability.Battle (Special)

/-- What the pages throw.  The source has no text of its own for a row that is
missing and for a number that is no code point. -/
inductive PageError where
  | emoBaseNotFound (id : Nat)
  | emoNameNotFound (emoji : Nat)
  | invalidCodePoint (codepoint : Nat)
  | undefinedGradeText (grade : Nat)
  | notFoundDiv (index : Nat)
  | notFoundInfoAbility (abilityIndex : Nat)
  | undefinedSpecialType (special : Special)
deriving DecidableEq

/-! ## Texts -/

/-- The emojis of the bases and which of them have a name. -/
structure EmojiNames where
  /-- The field of a base that only the pages read. -/
  codepoint : Base → Nat
  /-- `names.json` -/
  emoNames : Nat → Bool

section Texts

variable (names : EmojiNames) (emoBases : Bases)

def findEmoBase (id : Nat) : Except PageError Base :=
  match emoBases id with
  | some base => return base
  | none => throw (.emoBaseNotFound id)

/-- An emoji stands for its code point. -/
def getEmoBaseEmoji (base : Base) : Except PageError Nat :=
  if names.codepoint base ≤ 0x10FFFF then return names.codepoint base
  else throw (.invalidCodePoint (names.codepoint base))

def getEmoName (emoji : Nat) : Except PageError Unit :=
  if names.emoNames emoji then return () else throw (.emoNameNotFound emoji)

def getEmoBaseName (base : Base) : Except PageError Unit := do
  let emoji ← getEmoBaseEmoji names base
  getEmoName names emoji

def getGradeText (grade : Nat) : Except PageError Unit :=
  if 1 ≤ grade ∧ grade ≤ 6 then return () else throw (.undefinedGradeText grade)

/-- The base that is named in the text of an action. -/
def emoName (baseId : Nat) : Except PageError Unit := do
  let m ← findEmoBase emoBases baseId
  let _ ← getEmoBaseEmoji names m
  getEmoBaseName names m

def battleNormalActionAsOneself : Battle.NormalAction → Except PageError Unit
  | .setEmo _ baseId | .setEmosByAttackDiv _ baseId _ => emoName names emoBases baseId
  | _ => return ()

/-- The texts for allies name no base. -/
def battleAbility : Battle → Except PageError Unit
  | .general (.asOneself _ action) => battleNormalActionAsOneself names emoBases action
  | .general (.asAlly _ _) | .special _ => return ()

mutual

def buildEmoAbilityText : Ability → Except PageError Unit
  | .shop shop => shopAbility shop
  | .battle battle => battleAbility names emoBases battle

def shopAbility : Shop → Except PageError Unit
  | .pre pre => shopPreAction pre
  | .peri (.asOneself _ action) => shopNormalActionAsOneself action
  | .peri (.asAlly _ _) | .special _ => return ()

def shopPreAction : Shop.Pre → Except PageError Unit
  | .normal action => shopNormalActionAsOneself action
  | .random _ => return ()

def shopNormalActionAsOneself : Shop.NormalAction → Except PageError Unit
  | .setEmo baseId => emoName names emoBases baseId
  | .addAbility _ (.battle (.special _)) => return ()
  | .addAbility _ ability => buildEmoAbilityText ability
  | _ => return ()

end

end Texts

/-! ## Emos -/

/-- Whether the marks of special abilities are displayed. -/
structure Specials where
  shield : Bool
  attractive : Bool
deriving DecidableEq

structure EmoElement where
  /-- Its emoji, name, typ and grade are shown. -/
  base : Base
  isTriple : Bool
  attack : Nat
  health : Nat
  specials : Specials
  /-- What the rows are texts of. -/
  infoAbilities : List (Ability × Bool)
deriving DecidableEq

def createSpecials (abilities : List Ability) : Specials :=
  abilities.foldl (fun specials ability =>
    match ability with
    | .battle (.special .shield) => { specials with shield := true }
    | .battle (.special .attractive) => { specials with attractive := true }
    | _ => specials) { shield := false, attractive := false }

section Creation

variable (names : EmojiNames) (emoBases : Bases)

def createInfoAbilityTr (ability : Ability) (isTriple : Bool) :
    Except PageError (Ability × Bool) := do
  buildEmoAbilityText names emoBases ability
  return (ability, isTriple)

def createInfoAbilities (abilities : List Ability) (isTriple : Bool) :
    Except PageError (List (Ability × Bool)) :=
  abilities.mapM fun ability => createInfoAbilityTr names emoBases ability isTriple

def createEmo (emoji : Nat) (base : Base) (attributes : Attributes) :
    Except PageError EmoElement := do
  getGradeText base.grade
  let specials := createSpecials attributes.abilities
  getEmoName names emoji
  let infoAbilities ←
    createInfoAbilities names emoBases attributes.abilities attributes.isTriple
  return {
    base
    isTriple := attributes.isTriple
    attack := attributes.attack
    health := attributes.health
    specials
    infoAbilities }

/-- Takes what an emo of a board and one of a ghost's have in common. -/
def createEmoWithBoardEmo (baseId : Nat) (attributes : Attributes) :
    Except PageError EmoElement := do
  let base ← findEmoBase emoBases baseId
  let emoji ← getEmoBaseEmoji names base
  createEmo names emoBases emoji base attributes

def addInfoAbility (element : EmoElement) (ability : Ability) (isTriple : Bool) :
    Except PageError EmoElement := do
  let tr ← createInfoAbilityTr names emoBases ability isTriple
  return { element with infoAbilities := element.infoAbilities ++ [tr] }

end Creation

def removeInfoAbility (element : EmoElement) (abilityIndex : Nat) : Except PageError EmoElement :=
  if abilityIndex < element.infoAbilities.length then
    return { element with infoAbilities := element.infoAbilities.eraseIdx abilityIndex }
  else throw (.notFoundInfoAbility abilityIndex)

inductive AttackOrHealth where
  | attack
  | health

def updateEmoStat (emoElement : EmoElement) (attackOrHealth : AttackOrHealth) (value : Nat) :
    EmoElement :=
  match attackOrHealth with
  | .attack => { emoElement with attack := value }
  | .health => { emoElement with health := value }

/-- Sets the display of what `getSpecial` returns. -/
def displaySpecial (element : EmoElement) (special : Special) (displayed : Bool) :
    Except PageError EmoElement :=
  match special with
  | .shield => return { element with specials.shield := displayed }
  | .attractive => return { element with specials.attractive := displayed }
  | .attackLowestAttack => throw (.undefinedSpecialType special)

def addSpecial (element : EmoElement) (special : Special) : Except PageError EmoElement :=
  displaySpecial element special true

def removeSpecial (element : EmoElement) (special : Special) : Except PageError EmoElement :=
  displaySpecial element special false

/-! ## Boards -/

abbrev BoardElement := List EmoElement

def getChildDivByIndex (element : BoardElement) (index : Nat) : Except PageError EmoElement :=
  match element[index]? with
  | some child => return child
  | none => throw (.notFoundDiv index)

def insertElementByIndex (parentElement : BoardElement) (childElement : EmoElement)
    (index : Nat) : BoardElement :=
  if parentElement.length ≤ index then parentElement ++ [childElement]
  else parentElement.insertIdx index childElement

/-- Appends the emos of a board to an element without children. -/
def setupBoard (names : EmojiNames) (emoBases : Bases) (board : List (Nat × Attributes)) :
    Except PageError BoardElement :=
  board.mapM fun (baseId, attributes) => createEmoWithBoardEmo names emoBases baseId attributes

/-- What is done to the child at the index. -/
def changeChild (boardElement : BoardElement) (index : Nat)
    (change : EmoElement → Except PageError EmoElement) : Except PageError BoardElement := do
  let emoElement ← getChildDivByIndex boardElement index
  let emoElement ← change emoElement
  return boardElement.set index emoElement

def addEmoToBoard (names : EmojiNames) (emoBases : Bases) (boardElement : BoardElement)
    (baseId : Nat) (attributes : Attributes) (index : Nat) : Except PageError BoardElement := do
  let emoElement ← createEmoWithBoardEmo names emoBases baseId attributes
  return insertElementByIndex boardElement emoElement index

def removeEmoFromBoard (boardElement : BoardElement) (index : Nat) :
    Except PageError BoardElement := do
  let _ ← getChildDivByIndex boardElement index
  return boardElement.eraseIdx index

/-- A stat whose change is zero is not written. -/
def updateStats (boardElement : BoardElement)
    (emoIndex attack health calculatedAttack calculatedHealth : Nat) :
    Except PageError BoardElement :=
  changeChild boardElement emoIndex fun emoElement =>
    let emoElement :=
      if attack ≠ 0 then updateEmoStat emoElement .attack calculatedAttack else emoElement
    return if health ≠ 0 then updateEmoStat emoElement .health calculatedHealth else emoElement

/-! ## What elements show -/

variable {names : EmojiNames} {emoBases : Bases} {boardElement : BoardElement}
variable {board : List (Nat × Attributes)} {index baseId : Nat} {attributes : Attributes}

/-- What is shown of an emo. -/
def EmoElement.of (base : Base) (attributes : Attributes) : EmoElement where
  base := base
  isTriple := attributes.isTriple
  attack := attributes.attack
  health := attributes.health
  specials := createSpecials attributes.abilities
  infoAbilities := attributes.abilities.map fun ability => (ability, attributes.isTriple)

/-- The text of the ability names only bases that have a name. -/
def HasText (names : EmojiNames) (emoBases : Bases) (ability : Ability) : Prop :=
  buildEmoAbilityText names emoBases ability = .ok ()

/-- The texts of an emo are all there. -/
structure Readable (names : EmojiNames) (emoBases : Bases) (base : Base)
    (attributes : Attributes) : Prop where
  grade : 1 ≤ base.grade ∧ base.grade ≤ 6
  name : getEmoBaseName names base = .ok ()
  texts : ∀ ability ∈ attributes.abilities, HasText names emoBases ability

/-- The element that is created for an emo. -/
def element? (names : EmojiNames) (emoBases : Bases) (emo : Nat × Attributes) :
    Option EmoElement :=
  (createEmoWithBoardEmo names emoBases emo.1 emo.2).toOption

/-- The children look as if they were just set up for the board. -/
def ShowsBoard (names : EmojiNames) (emoBases : Bases) (boardElement : BoardElement)
    (board : List (Nat × Attributes)) : Prop :=
  boardElement.map some = board.map (element? names emoBases)

theorem createInfoAbilityTr_eq_ok_iff {ability : Ability} {isTriple : Bool}
    {row : Ability × Bool} :
    createInfoAbilityTr names emoBases ability isTriple = .ok row ↔
      HasText names emoBases ability ∧ (ability, isTriple) = row := by
  simp only [createInfoAbilityTr, Result.bind_eq_ok_iff, Result.pure_eq_ok_iff, HasText,
    exists_and_right]
  refine and_congr_left fun _ => ⟨?_, fun text => ⟨(), text⟩⟩
  rintro ⟨_, text⟩
  exact text

theorem createInfoAbilities_eq_ok_iff {abilities : List Ability} {isTriple : Bool}
    {rows : List (Ability × Bool)} :
    createInfoAbilities names emoBases abilities isTriple = .ok rows ↔
      (∀ ability ∈ abilities, HasText names emoBases ability) ∧
        abilities.map (fun ability => (ability, isTriple)) = rows := by
  induction abilities generalizing rows with
  | nil =>
      simp only [createInfoAbilities, List.mapM_nil, Result.pure_eq_ok_iff, List.map_nil]
      exact (and_iff_right (List.forall_mem_nil _)).symm
  | cons ability rest ih =>
      simp only [createInfoAbilities] at ih ⊢
      simp only [List.mapM_cons, Result.bind_eq_ok_iff, Result.pure_eq_ok_iff,
        createInfoAbilityTr_eq_ok_iff, List.forall_mem_cons, List.map_cons, ih]
      constructor
      · rintro ⟨_, ⟨text, rfl⟩, _, ⟨texts, rfl⟩, rfl⟩
        exact ⟨⟨text, texts⟩, rfl⟩
      · rintro ⟨⟨text, texts⟩, rfl⟩
        exact ⟨_, ⟨text, rfl⟩, _, ⟨texts, rfl⟩, rfl⟩

theorem getGradeText_eq_ok_iff {grade : Nat} :
    getGradeText grade = .ok () ↔ 1 ≤ grade ∧ grade ≤ 6 := by
  unfold getGradeText
  split <;> simp_all [throw, throwThe, MonadExceptOf.throw]

theorem createEmoWithBoardEmo_eq_ok_iff {element : EmoElement} :
    createEmoWithBoardEmo names emoBases baseId attributes = .ok element ↔
      ∃ base, emoBases baseId = some base ∧ Readable names emoBases base attributes ∧
        .of base attributes = element := by
  have found {base : Base} : findEmoBase emoBases baseId = .ok base ↔
      emoBases baseId = some base := by
    unfold findEmoBase
    cases emoBases baseId <;> simp [throw, throwThe, MonadExceptOf.throw]
  simp only [createEmoWithBoardEmo, createEmo, Result.bind_eq_ok_iff, Result.pure_eq_ok_iff,
    found, createInfoAbilities_eq_ok_iff]
  refine exists_congr fun base => and_congr_right fun _ => ?_
  constructor
  · rintro ⟨emoji, shown, _, grade, _, name, _, ⟨texts, rfl⟩, rfl⟩
    refine ⟨⟨getGradeText_eq_ok_iff.mp grade, ?_, texts⟩, rfl⟩
    rw [getEmoBaseName, shown]
    exact name
  · rintro ⟨⟨grade, name, texts⟩, rfl⟩
    obtain ⟨emoji, shown, named⟩ := Result.bind_eq_ok_iff.mp name
    exact ⟨emoji, shown, (), getGradeText_eq_ok_iff.mpr grade, (), named, _, ⟨texts, rfl⟩, rfl⟩

theorem element?_eq_some_iff {element : EmoElement} :
    element? names emoBases (baseId, attributes) = some element ↔
      ∃ base, emoBases baseId = some base ∧ Readable names emoBases base attributes ∧
        .of base attributes = element := by
  rw [element?, ← createEmoWithBoardEmo_eq_ok_iff]
  cases createEmoWithBoardEmo names emoBases baseId attributes <;> simp [Except.toOption]

theorem setupBoard_eq_ok_iff :
    setupBoard names emoBases board = .ok boardElement ↔
      ShowsBoard names emoBases boardElement board := by
  induction board generalizing boardElement with
  | nil =>
      cases boardElement with
      | nil => exact iff_of_true rfl rfl
      | cons element others =>
          exact iff_of_false (by intro same; cases same) (by simp [ShowsBoard])
  | cons emo rest ih =>
      have created {element : EmoElement} :
          createEmoWithBoardEmo names emoBases emo.1 emo.2 = .ok element ↔
            element? names emoBases emo = some element := by
        rw [createEmoWithBoardEmo_eq_ok_iff, ← element?_eq_some_iff]
      simp only [setupBoard, ShowsBoard] at ih ⊢
      simp only [List.map_cons, List.mapM_cons, Result.bind_eq_ok_iff, Result.pure_eq_ok_iff, ih,
        created]
      cases boardElement with
      | nil => simp
      | cons element others => simp [eq_comm]

theorem setupBoard_succeeds_iff :
    (∃ boardElement, setupBoard names emoBases board = .ok boardElement) ↔
      ∀ emo ∈ board, (element? names emoBases emo).isSome := by
  simp only [setupBoard_eq_ok_iff, ShowsBoard]
  induction board with
  | nil => exact iff_of_true ⟨[], rfl⟩ (List.forall_mem_nil _)
  | cons emo rest ih =>
      rw [List.forall_mem_cons, ← ih, Option.isSome_iff_exists]
      constructor
      · rintro ⟨_ | ⟨element, others⟩, built⟩
        · cases built
        · rw [List.map_cons, List.map_cons, List.cons.injEq] at built
          exact ⟨⟨element, built.1.symm⟩, others, built.2⟩
      · rintro ⟨⟨element, created⟩, others, built⟩
        exact ⟨element :: others, by rw [List.map_cons, List.map_cons, created, built]⟩

theorem changeChild_eq_ok_iff {change : EmoElement → Except PageError EmoElement}
    {after : BoardElement} :
    changeChild boardElement index change = .ok after ↔
      ∃ element, boardElement[index]? = some element ∧ ∃ changed,
        change element = .ok changed ∧ boardElement.set index changed = after := by
  have child {element : EmoElement} : getChildDivByIndex boardElement index = .ok element ↔
      boardElement[index]? = some element := by
    unfold getChildDivByIndex
    cases boardElement[index]? <;> simp [throw, throwThe, MonadExceptOf.throw]
  simp only [changeChild, Result.bind_eq_ok_iff, Result.pure_eq_ok_iff, child]

/-- Changes of two children. -/
theorem changeChild_comm {first second : EmoElement → Except PageError EmoElement}
    {other : Nat} {after : BoardElement} (apart : index ≠ other)
    (changed : (changeChild boardElement index first >>= (changeChild · other second)) =
      .ok after) :
    (changeChild boardElement other second >>= (changeChild · index first)) = .ok after := by
  simp only [Result.bind_eq_ok_iff, changeChild_eq_ok_iff] at changed ⊢
  obtain ⟨_, ⟨element, here, next, change, rfl⟩, child, there, last, more, rfl⟩ := changed
  rw [List.getElem?_set_ne apart] at there
  refine ⟨_, ⟨child, there, last, more, rfl⟩, element, ?_, next, change, ?_⟩
  · rw [List.getElem?_set_ne apart.symm]
    exact here
  · rw [List.set_comm _ _ apart]

namespace ShowsBoard

theorem length (shows : ShowsBoard names emoBases boardElement board) :
    boardElement.length = board.length := by
  simpa using congrArg List.length shows

theorem found (shows : ShowsBoard names emoBases boardElement board)
    (listed : board[index]? = some (baseId, attributes)) :
    ∃ base, emoBases baseId = some base ∧ Readable names emoBases base attributes ∧
      boardElement[index]? = some (.of base attributes) := by
  have same := congrArg (fun values => values[index]?) shows
  simp only [List.getElem?_map, listed, Option.map_some] at same
  obtain ⟨element, here, created⟩ := Option.map_eq_some_iff.mp same
  obtain ⟨base, resolved, readable, rfl⟩ := element?_eq_some_iff.mp created.symm
  exact ⟨base, resolved, readable, here⟩

theorem child (shows : ShowsBoard names emoBases boardElement board)
    (bound : index < board.length) :
    ∃ element, getChildDivByIndex boardElement index = .ok element := by
  rw [← shows.length] at bound
  exact ⟨boardElement[index], by rw [getChildDivByIndex, List.getElem?_eq_getElem bound]; rfl⟩

/-- A child is changed like the emo that it shows. -/
theorem change (shows : ShowsBoard names emoBases boardElement board)
    (listed : board[index]? = some (baseId, attributes)) {changed : Attributes}
    {change : EmoElement → Except PageError EmoElement}
    (texts : ∀ ability ∈ changed.abilities,
      ability ∈ attributes.abilities ∨ HasText names emoBases ability)
    (changes : ∀ base, change (.of base attributes) = .ok (.of base changed)) :
    ∃ after, changeChild boardElement index change = .ok after ∧
      ShowsBoard names emoBases after (board.set index (baseId, changed)) := by
  obtain ⟨base, resolved, readable, here⟩ := shows.found listed
  have still : Readable names emoBases base changed :=
    ⟨readable.grade, readable.name, fun ability member =>
      (texts ability member).elim (readable.texts ability) id⟩
  refine ⟨_, changeChild_eq_ok_iff.mpr ⟨_, here, _, changes base, rfl⟩, ?_⟩
  rw [ShowsBoard, List.map_set, List.map_set, shows,
    element?_eq_some_iff.mpr ⟨base, resolved, still, rfl⟩]

theorem remove (shows : ShowsBoard names emoBases boardElement board)
    (bound : index < board.length) :
    removeEmoFromBoard boardElement index = .ok (boardElement.eraseIdx index) ∧
      ShowsBoard names emoBases (boardElement.eraseIdx index) (board.eraseIdx index) := by
  obtain ⟨element, found⟩ := shows.child bound
  refine ⟨by rw [removeEmoFromBoard, found]; rfl, ?_⟩
  rw [ShowsBoard, ← List.eraseIdx_map, ← List.eraseIdx_map, shows]

/-- An emo is never added behind a gap. -/
theorem add (shows : ShowsBoard names emoBases boardElement board) (bound : index ≤ board.length)
    {element : EmoElement} (created : element? names emoBases (baseId, attributes) = some element) :
    ∃ after, addEmoToBoard names emoBases boardElement baseId attributes index = .ok after ∧
      ShowsBoard names emoBases after (board.insertIdx index (baseId, attributes)) := by
  rw [← shows.length] at bound
  have inserted : insertElementByIndex boardElement element index =
      boardElement.insertIdx index element := by
    unfold insertElementByIndex
    split
    · rename_i atEnd
      obtain rfl := Nat.le_antisymm bound atEnd
      rw [List.insertIdx_length_self]
    · rfl
  have built := createEmoWithBoardEmo_eq_ok_iff.mpr (element?_eq_some_iff.mp created)
  refine ⟨_, by rw [addEmoToBoard, built]; rfl, ?_⟩
  rw [inserted, ShowsBoard, List.map_insertIdx, List.map_insertIdx, shows, created]

/-- A stat that is not written did not change. -/
theorem updateStats (shows : ShowsBoard names emoBases boardElement board)
    (listed : board[index]? = some (baseId, attributes))
    {attack health calculatedAttack calculatedHealth : Nat}
    (attackStays : attack = 0 → calculatedAttack = attributes.attack)
    (healthStays : health = 0 → calculatedHealth = attributes.health) :
    ∃ after, updateStats boardElement index attack health calculatedAttack calculatedHealth =
        .ok after ∧
      ShowsBoard names emoBases after (board.set index (baseId,
        { attributes with attack := calculatedAttack, health := calculatedHealth })) := by
  refine shows.change listed (fun _ member => .inl member) fun base => ?_
  by_cases noAttack : attack = 0
  · by_cases noHealth : health = 0
    · simp [noAttack, noHealth, attackStays noAttack, healthStays noHealth, EmoElement.of]
    · simp [noAttack, noHealth, attackStays noAttack, EmoElement.of, updateEmoStat]
  · by_cases noHealth : health = 0
    · simp [noAttack, noHealth, healthStays noHealth, EmoElement.of, updateEmoStat]
    · simp [noAttack, noHealth, EmoElement.of, updateEmoStat]

end ShowsBoard

/-! ## Marks -/

theorem createSpecials_append (abilities : List Ability) (ability : Ability) :
    createSpecials (abilities ++ [ability]) =
      match ability with
      | .battle (.special .shield) => { createSpecials abilities with shield := true }
      | .battle (.special .attractive) => { createSpecials abilities with attractive := true }
      | _ => createSpecials abilities := by
  rw [createSpecials, List.foldl_append]
  rfl

theorem createSpecials_eq (abilities : List Ability) : createSpecials abilities =
    { shield := .battle (.special .shield) ∈ abilities
      attractive := .battle (.special .attractive) ∈ abilities } := by
  induction abilities using List.reverseRecOn with
  | nil => rfl
  | append_singleton abilities ability ih =>
      rw [createSpecials_append, ih]
      split
      · simp
      · simp
      · rename_i noShield noAttractive
        simp [Ne.symm noShield, Ne.symm noAttractive]

end EmojiBattler.Front
