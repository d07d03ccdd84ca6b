import Mathlib.Data.List.Sort
import EmojiBattler.Game.Matchmaking
import EmojiBattler.Game.StoredBases
import EmojiBattler.Library.Grouping
import EmojiBattler.Mtc.Pool

/-! # The decks of the front

The page before a match keeps the decks of an account in `localStorage`, which
all tabs share.  A deck is built of one base for each grade as of the lists
that its tab has read; the contract checks it against its own lists when the
match starts. -/

namespace EmojiBattler.Front

open EmojiBattler.Emo EmojiBattler.Mtc EmojiBattler.Game
open EmojiBattler.Mtc.Shop (KeyedBases)
open Function (update)
open Grouping (groupBy Grouped Picks)

/-! ## The default deck -/

/-- Ids and grades are compared as decimals in the front. -/
def groupEmoBasesByGrades (emoBases : Bases) (emoBaseIds : List Nat) :
    Result (List (Nat × List Base)) := do
  let ms ← emoBaseIds.mapM emoBases.find
  return (groupBy Base.grade ms).insertionSort fun a b => a.1 ≤ b.1

/-- The first base of each group. -/
def firstIds (groups : List (Nat × List Base)) : Result (List Nat) :=
  groups.mapM fun group => okOr (group.2.head?.map Base.id) .indexOutOfBounds

def getDefaultDeck (emoBases : Bases) (builtEmoBaseIds : List Nat) : Result (List Nat) := do
  firstIds (← groupEmoBasesByGrades emoBases builtEmoBaseIds)

/-! ## The stored decks -/

/-- What `localStorage` has under the two keys of an address. -/
structure StoredDecks where
  customDecks : Option (List (List Nat)) := none
  selectedDeckIndex : Option Nat := none

/-- Returns the index of the selected deck as well. -/
def getDecks (stored : StoredDecks) (emoBases : Bases) (builtEmoBaseIds : List Nat) :
    Result (List (List Nat) × Nat) := do
  let defaultDeck ← getDefaultDeck emoBases builtEmoBaseIds
  match stored.customDecks with
  | none => return ([defaultDeck], 0)
  | some customDecks =>
      let decks := defaultDeck :: customDecks
      match stored.selectedDeckIndex with
      | some index => return (decks, if index < decks.length then index else 0)
      | none => return (decks, 0)

def deleteDeck (stored : StoredDecks) (deckIndex : Nat) : Result StoredDecks := do
  ensure (deckIndex ≠ 0) (.panicked "cannot delete default deck")
  return { customDecks := some ((stored.customDecks.getD []).eraseIdx (deckIndex - 1))
           selectedDeckIndex := none }

/-- The whole of one deck is the beginning of the other. -/
def startsWith (deck other : List Nat) : Bool :=
  other.zipIdx.all fun (id, i) => deck[i]? = some id

def addDeck (stored : StoredDecks) (deck : List Nat) (emoBases : Bases)
    (builtEmoBaseIds : List Nat) : Result StoredDecks := do
  let defaultDeck ← getDefaultDeck emoBases builtEmoBaseIds
  let decks := stored.customDecks.getD []
  let isDup := (defaultDeck :: decks).any (startsWith deck)
  return if isDup then stored else { stored with customDecks := some (decks ++ [deck]) }

def selectDeckIndex (stored : StoredDecks) (deckIndex : Nat) (emoBases : Bases)
    (builtEmoBaseIds : List Nat) : Result StoredDecks := do
  let (decks, _) ← getDecks stored emoBases builtEmoBaseIds
  ensure (deckIndex < decks.length) (.panicked "invalid deckIndex")
  return { stored with selectedDeckIndex := some deckIndex }

/-! ## The page -/

/-- The components `Setup`, `Decks` and `DeckBuilder`. -/
structure DecksPage (Address : Type) where
  address : Address
  emoBases : Bases
  builtEmoBaseIds : List Nat
  decks : List (List Nat) := []
  selectedDeckIndex : Option Nat := none
  /-- The deck that `Setup` starts a match with. -/
  deck : List Nat := []
  /-- The selection in the builder while a new deck is built. -/
  selected : Option (List Nat) := none

inductive DecksButton where
  | select (deckIndex : Nat)
  | delete (deckIndex : Nat)
  | buildNewDeck
  /-- A base of a dropdown of the builder. -/
  | base (index id : Nat)
  | save
  | cancel

namespace DecksPage

variable {Address : Type}

def updateDecksState (stored : StoredDecks) (page : DecksPage Address) :
    Result (DecksPage Address) := do
  let (decks, selectedDeckIndex) ← getDecks stored page.emoBases page.builtEmoBaseIds
  let deck ← okOr decks[selectedDeckIndex]? .indexOutOfBounds
  return { page with decks, selectedDeckIndex := some selectedDeckIndex, deck }

def isStaleDeck (builtEmoBaseIds deck : List Nat) : Bool :=
  !deck.all fun id => builtEmoBaseIds.contains id

/-- The button is there and enabled. -/
def enabled (page : DecksPage Address) : DecksButton → Bool
  | .select deckIndex => page.decks[deckIndex]?.any fun deck =>
      page.selectedDeckIndex ≠ some deckIndex && !isStaleDeck page.builtEmoBaseIds deck
  | .delete deckIndex => deckIndex < page.decks.length && deckIndex ≠ 0 &&
      page.selectedDeckIndex ≠ some deckIndex
  | .buildNewDeck => page.selected.isNone
  | .base index id => page.selected.isSome &&
      ((groupEmoBasesByGrades page.emoBases page.builtEmoBaseIds).toOption.any fun basesByGrades =>
        basesByGrades[index]?.any fun group => group.2.any fun base => base.id = id)
  | .save | .cancel => page.selected.isSome

/-- The handler of a button: what is stored after it, and the page. -/
def onClick (stored : StoredDecks) (page : DecksPage Address) :
    DecksButton → Result (StoredDecks × DecksPage Address)
  | .select deckIndex => do
      let stored ← selectDeckIndex stored deckIndex page.emoBases page.builtEmoBaseIds
      return (stored, ← page.updateDecksState stored)
  | .delete deckIndex => do
      let stored ← deleteDeck stored deckIndex
      return (stored, ← page.updateDecksState stored)
  | .buildNewDeck => do
      let selected ← getDefaultDeck page.emoBases page.builtEmoBaseIds
      return (stored, { page with selected := some selected })
  | .base index id => do
      let selected := page.selected.map fun selected => selected.set index id
      return (stored, { page with selected })
  | .save => do
      let stored ← addDeck stored (page.selected.getD []) page.emoBases page.builtEmoBaseIds
      let page := { page with selected := none }
      return (stored, ← page.updateDecksState stored)
  | .cancel => do
      let page := { page with selected := none }
      return (stored, ← page.updateDecksState stored)

end DecksPage

/-! ## Decks of one base for each grade -/

section Grades

variable {bases : Bases}

/-- One base of each grade from 1 to 6. -/
def OneOfEachGrade (bases : Bases) (deck : List Nat) : Prop :=
  (deck.map (grade? bases)).Perm ((List.range' 1 6).map some)

namespace OneOfEachGrade

variable {deck fixedBaseIds builtBaseIds : List Nat}

theorem length (graded : OneOfEachGrade bases deck) : deck.length = 6 := by
  have same := graded.length_eq
  simpa using same

theorem nodup (graded : OneOfEachGrade bases deck) : (deck.map (grade? bases)).Nodup :=
  graded.nodup_iff.mpr (by decide)

theorem baseGraded (graded : OneOfEachGrade bases deck) {id : Nat} (member : id ∈ deck) :
    BaseGraded bases id := by
  have listed := graded.mem_iff.mp (List.mem_map_of_mem member)
  obtain ⟨grade, within, same⟩ := List.mem_map.mp listed
  obtain ⟨base, found, rfl⟩ := Option.map_eq_some_iff.mp same.symm
  rw [List.mem_range'_1] at within
  exact ⟨base, found, within.1, by omega⟩

/-- The copies of a base are counted by its grade. -/
theorem poolSize (graded : OneOfEachGrade bases deck) : Mtc.poolSize bases deck = 33 := by
  have counted : poolCount bases = fun id => (grade? bases id).elim 0 fun grade =>
      (getPoolEmoCountByGrade grade).toOption.getD 0 := by
    funext id
    cases found : bases id <;> simp [poolCount, grade?, found]
  have sizes := (graded.map fun grade => grade.elim 0 fun grade =>
    (getPoolEmoCountByGrade grade).toOption.getD 0).sum_nat
  rw [Mtc.poolSize, counted]
  rw [List.map_map] at sizes
  exact sizes

theorem mono {larger : Bases} (graded : OneOfEachGrade bases deck)
    (more : ∀ id base, bases id = some base → larger id = some base) :
    OneOfEachGrade larger deck := by
  have same : deck.map (grade? larger) = deck.map (grade? bases) := by
    refine List.map_congr_left fun id member => ?_
    obtain ⟨base, found, _⟩ := graded.baseGraded member
    rw [grade?, grade?, found, more id base found]
  rwa [OneOfEachGrade, same]

/-- A deck with a base of each grade is accepted where another one is, if its
bases are allowed. -/
theorem buildPool_succeeds_iff {other : List Nat} (keyed : KeyedBases bases)
    (graded : OneOfEachGrade bases deck)
    (accepted : Succeeds (buildPool other bases fixedBaseIds builtBaseIds)) :
    Succeeds (buildPool deck bases fixedBaseIds builtBaseIds) ↔
      ∀ id ∈ deck, id ∈ builtBaseIds := by
  obtain ⟨valid, fits⟩ := (Mtc.buildPool_succeeds_iff keyed).mp accepted
  rw [Mtc.buildPool_succeeds_iff keyed]
  constructor
  · intro succeeds id member
    exact (succeeds.1.allowed id member).2
  · intro allowed
    refine ⟨⟨graded.length, fun id member => ?_, graded.nodup, fun id member => ?_⟩, ?_⟩
    · obtain ⟨base, found, _⟩ := graded.baseGraded member
      exact ⟨⟨base, found⟩, allowed id member⟩
    · rcases List.mem_append.mp member with picked | fixed
      · exact graded.baseGraded picked
      · exact valid.graded id (List.mem_append_right _ fixed)
    · have size := graded.poolSize
      have otherSize := OneOfEachGrade.poolSize valid.grades_perm
      simp only [Mtc.poolSize, List.map_append, List.sum_append] at size otherSize fits ⊢
      omega

end OneOfEachGrade

/-! ## What the builder offers -/

variable {ids deck : List Nat} {groups : List (Nat × List Base)}

theorem mapM_forall₂ {f : α → Result β} {values : List α} {results : List β}
    (mapped : values.mapM f = .ok results) :
    List.Forall₂ (fun value result => f value = .ok result) values results := by
  induction values generalizing results with
  | nil =>
      cases mapped
      exact .nil
  | cons value rest ih =>
      simp only [List.mapM_cons, Result.bind_eq_ok_iff, Result.pure_eq_ok_iff] at mapped
      obtain ⟨_, first, tail, mapped, rfl⟩ := mapped
      exact .cons first (ih mapped)

/-- The groups hold the listed bases. -/
theorem mem_groupEmoBasesByGrades_iff {base : Base} (keyed : KeyedBases bases)
    (built : groupEmoBasesByGrades bases ids = .ok groups) :
    (∃ group ∈ groups, base ∈ group.2) ↔ base.id ∈ ids ∧ bases base.id = some base := by
  simp only [groupEmoBasesByGrades, Result.bind_eq_ok_iff, Result.pure_eq_ok_iff] at built
  obtain ⟨ms, found, rfl⟩ := built
  simp only [List.mem_insertionSort, Grouping.mem_groupBy]
  replace found := mapM_forall₂ found
  induction found with
  | nil => simp
  | @cons id first _ _ head _ ih =>
      have head := Emo.Bases.find_eq_ok_iff.mp head
      have own := keyed id first head
      simp only [List.mem_cons, ih]
      constructor
      · rintro (rfl | ⟨listed, found⟩)
        · exact ⟨.inl own, own ▸ head⟩
        · exact ⟨.inr listed, found⟩
      · rintro ⟨here | later, found⟩
        · rw [here, head] at found
          exact .inl (Option.some.inj found).symm
        · exact .inr ⟨later, found⟩

theorem groupEmoBasesByGrades_grouped (built : groupEmoBasesByGrades bases ids = .ok groups) :
    Grouped Base.grade groups := by
  simp only [groupEmoBasesByGrades, Result.bind_eq_ok_iff, Result.pure_eq_ok_iff] at built
  obtain ⟨ms, _, rfl⟩ := built
  intro group listed
  exact Grouping.grouped_groupBy Base.grade ms group ((List.mem_insertionSort _).mp listed)

theorem groupEmoBasesByGrades_nodup (built : groupEmoBasesByGrades bases ids = .ok groups) :
    (groups.map Prod.fst).Nodup := by
  simp only [groupEmoBasesByGrades, Result.bind_eq_ok_iff, Result.pure_eq_ok_iff] at built
  obtain ⟨ms, _, rfl⟩ := built
  have sorted := (List.perm_insertionSort (fun a b => a.1 ≤ b.1)
    (groupBy Base.grade ms)).map Prod.fst
  exact sorted.nodup_iff.mpr (Grouping.nodup_groupBy Base.grade ms)

/-- Whatever is chosen, the grades are those of the groups. -/
theorem grades_of_picks {picked : List Base} (keyed : KeyedBases bases)
    (built : groupEmoBasesByGrades bases ids = .ok groups) (picks : Picks groups picked) :
    (picked.map Base.id).map (grade? bases) = (groups.map Prod.fst).map some := by
  rw [← (groupEmoBasesByGrades_grouped built).keys_picked picks, List.map_map, List.map_map]
  refine List.map_congr_left fun base member => ?_
  have found := ((mem_groupEmoBasesByGrades_iff keyed built).mp (picks.mem member)).2
  simp [grade?, found]

theorem firstIds_picks (first : firstIds groups = .ok deck) :
    ∃ picked, Picks groups picked ∧ deck = picked.map Base.id := by
  have found := mapM_forall₂ first
  clear first
  induction found with
  | nil => exact ⟨[], .nil, rfl⟩
  | @cons group id _ _ head _ ih =>
      obtain ⟨picked, picks, rfl⟩ := ih
      obtain ⟨base, here, rfl⟩ := Option.map_eq_some_iff.mp (okOr_eq_ok_iff.mp head)
      exact ⟨base :: picked, .cons (List.mem_of_mem_head? here) picks, rfl⟩

/-- Where the default deck is accepted, the builder offers decks of one base
for each grade only. -/
theorem offers_of_accepted {fixedBaseIds : List Nat} {picked : List Base}
    (keyed : KeyedBases bases) (default : getDefaultDeck bases ids = .ok deck)
    (accepted : Succeeds (buildPool deck bases fixedBaseIds ids))
    (built : groupEmoBasesByGrades bases ids = .ok groups) (picks : Picks groups picked) :
    OneOfEachGrade bases (picked.map Base.id) := by
  rw [getDefaultDeck, Result.bind_eq_ok_iff] at default
  obtain ⟨_, again, first⟩ := default
  rw [built] at again
  cases again
  obtain ⟨firsts, firstPicks, rfl⟩ := firstIds_picks first
  obtain ⟨valid, _⟩ := (Mtc.buildPool_succeeds_iff keyed).mp accepted
  have grades := valid.grades_perm
  rw [grades_of_picks keyed built firstPicks] at grades
  rwa [OneOfEachGrade, grades_of_picks keyed built picks]

theorem exists_bases (known : ∀ id ∈ ids, Resolves bases id) (keyed : KeyedBases bases) :
    ∃ values : List Base, values.map Base.id = ids ∧
      ∀ base ∈ values, bases base.id = some base := by
  induction ids with
  | nil => exact ⟨[], rfl, List.forall_mem_nil _⟩
  | cons id rest ih =>
      obtain ⟨⟨base, found⟩, others⟩ := List.forall_mem_cons.mp known
      obtain ⟨values, same, listed⟩ := ih others
      have own := keyed id base found
      refine ⟨base :: values, by rw [List.map_cons, own, same], ?_⟩
      exact List.forall_mem_cons.mpr ⟨own ▸ found, listed⟩

/-- The choices of the builder are exactly the decks that are accepted, up to
their order. -/
theorem builder_offers_accepted {fixedBaseIds defaultDeck : List Nat}
    (keyed : ∀ id base, bases id = some base → base.id = id)
    (default : getDefaultDeck bases ids = .ok defaultDeck)
    (accepted : ∃ pool, buildPool defaultDeck bases fixedBaseIds ids = .ok pool)
    (built : groupEmoBasesByGrades bases ids = .ok groups) :
    (∃ pool, buildPool deck bases fixedBaseIds ids = .ok pool) ↔
      ∃ picked, Picks groups picked ∧ deck.Perm (picked.map Base.id) := by
  constructor
  · intro succeeds
    obtain ⟨valid, _⟩ := (Mtc.buildPool_succeeds_iff keyed).mp succeeds
    obtain ⟨values, rfl, found⟩ := exists_bases (fun id member => (valid.allowed id member).1) keyed
    have inside : ∀ base ∈ values, ∃ group ∈ groups, base ∈ group.2 := by
      intro base member
      have allowed := (valid.allowed base.id (List.mem_map_of_mem member)).2
      exact (mem_groupEmoBasesByGrades_iff keyed built).mpr ⟨allowed, found base member⟩
    have grades : (values.map Base.id).map (grade? bases) = (values.map Base.grade).map some := by
      rw [List.map_map, List.map_map]
      refine List.map_congr_left fun base member => ?_
      simp [grade?, found base member]
    have keys : ((values.map Base.grade).map some).Perm ((groups.map Prod.fst).map some) := by
      obtain ⟨defaults, picks, rfl⟩ : ∃ picked, Picks groups picked ∧
          defaultDeck = picked.map Base.id := by
        rw [getDefaultDeck, built] at default
        exact firstIds_picks default
      have own := (offers_of_accepted keyed default accepted built picks).symm
      rw [grades_of_picks keyed built picks] at own
      exact (grades ▸ valid.grades_perm).trans own
    obtain ⟨picked, picks, same⟩ := (groupEmoBasesByGrades_grouped built).exists_picks
      (groupEmoBasesByGrades_nodup built) inside
      ((List.map_perm_map_iff (Option.some_injective _)).mp keys)
    exact ⟨picked, picks, same.map _⟩
  · rintro ⟨picked, picks, same⟩
    have graded : OneOfEachGrade bases deck :=
      (same.map _).trans (offers_of_accepted keyed default accepted built picks)
    refine (graded.buildPool_succeeds_iff keyed accepted).mpr fun id member => ?_
    obtain ⟨base, listed, rfl⟩ := List.mem_map.mp (same.mem_iff.mp member)
    exact ((mem_groupEmoBasesByGrades_iff keyed built).mp (picks.mem listed)).1

/-- Two bases of the highest grade. -/
theorem builder_offers_accepted_seven :
    ∃ (bases : Bases) (groups : List (Nat × List Base)) (picked : List Base),
      groupEmoBasesByGrades bases [6, 0, 1, 2, 3, 4, 5] = .ok groups ∧ Picks groups picked ∧
        [5, 3, 1, 4, 2, 0].Perm (picked.map Base.id) := by
  let bases : Bases := fun id =>
    if id < 7 then some ⟨id, .human, min (id + 1) 6, 1, 1, []⟩ else none
  have keyed : ∀ id base, bases id = some base → base.id = id := by
    intro id base found
    simp only [bases] at found
    split at found <;> cases found
    rfl
  have grouped : groupEmoBasesByGrades bases [6, 0, 1, 2, 3, 4, 5] = .ok
      [(1, [⟨0, .human, 1, 1, 1, []⟩]), (2, [⟨1, .human, 2, 1, 1, []⟩]),
        (3, [⟨2, .human, 3, 1, 1, []⟩]), (4, [⟨3, .human, 4, 1, 1, []⟩]),
        (5, [⟨4, .human, 5, 1, 1, []⟩]),
        (6, [⟨6, .human, 6, 1, 1, []⟩, ⟨5, .human, 6, 1, 1, []⟩])] := rfl
  have default : getDefaultDeck bases [6, 0, 1, 2, 3, 4, 5] = .ok [0, 1, 2, 3, 4, 6] := rfl
  have offers := @builder_offers_accepted bases _ [5, 3, 1, 4, 2, 0] _ [] _ keyed default ⟨_, rfl⟩
    grouped
  obtain ⟨picked, picks, same⟩ := offers.mp ⟨_, rfl⟩
  exact ⟨bases, _, picked, grouped, picks, same⟩

/-- More bases do not change the groups of known ids. -/
theorem groupEmoBasesByGrades_mono {larger : Bases}
    (more : ∀ id base, bases id = some base → larger id = some base)
    (built : groupEmoBasesByGrades bases ids = .ok groups) :
    groupEmoBasesByGrades larger ids = .ok groups := by
  simp only [groupEmoBasesByGrades, Result.bind_eq_ok_iff, Result.pure_eq_ok_iff] at built ⊢
  obtain ⟨ms, found, same⟩ := built
  refine ⟨ms, ?_, same⟩
  clear same
  induction ids generalizing ms with
  | nil => exact found
  | cons id rest ih =>
      simp only [List.mapM_cons, Result.bind_eq_ok_iff, Emo.Bases.find_eq_ok_iff] at found ⊢
      obtain ⟨base, first, tail, others, same⟩ := found
      exact ⟨base, more id base first, tail, ih tail others, same⟩

end Grades

/-! ## The tabs -/

section World

variable {AccountId Address Tab : Type}

/-- The deck lists of the contract let a match start with the default deck. -/
def AcceptsDefault (contract : Contract AccountId) : Prop :=
  ∀ bases fixedBaseIds builtBaseIds, contract.emoBases = some bases →
    contract.deckFixedEmoBaseIds = some fixedBaseIds →
    contract.deckBuiltEmoBaseIds = some builtBaseIds →
    ∃ deck, getDefaultDeck bases builtBaseIds = .ok deck ∧
      Succeeds (buildPool deck bases fixedBaseIds builtBaseIds)

inductive TabState (Address : Type) where
  | closed
  /-- The connection has read the bases. -/
  | connected (emoBases : Bases)
  | decks (page : DecksPage Address)

/-- The bases that the connection of a tab has read. -/
def TabState.emoBases? : TabState Address → Option Bases
  | .closed => none
  | .connected emoBases => some emoBases
  | .decks page => some page.emoBases

/-- The contract, the `localStorage` and the tabs of a browser. -/
structure World (AccountId Address Tab : Type) where
  contract : Contract AccountId
  stored : Address → StoredDecks
  tabs : Tab → TabState Address

def World.deployed (deployer : AccountId) : World AccountId Address Tab where
  contract := Contract.new deployer
  stored := fun _ => {}
  tabs := fun _ => .closed

variable [DecidableEq AccountId]

section Steps

variable [DecidableEq Address] [DecidableEq Tab]

/-- What can happen next: a message of anyone, or something in one of the
tabs. -/
inductive World.Step (chain : Chain AccountId) (world : World AccountId Address Tab) :
    World AccountId Address Tab → Prop
  | message {after : Contract AccountId}
      (executes : Contract.ExecutesKeeping chain world.contract after)
      (accepts : AcceptsDefault after) :
      World.Step chain world { world with contract := after }
  | close (tab : Tab) :
      World.Step chain world { world with tabs := update world.tabs tab .closed }
  | connect (tab : Tab) {emoBases : Bases} (found : world.contract.emoBases = some emoBases) :
      World.Step chain world { world with tabs := update world.tabs tab (.connected emoBases) }
  /-- The page before a match is shown, and reads the built ids. -/
  | setup (tab : Tab) (address : Address) {emoBases : Bases} {builtEmoBaseIds : List Nat}
      {page : DecksPage Address} (connected : (world.tabs tab).emoBases? = some emoBases)
      (found : world.contract.deckBuiltEmoBaseIds = some builtEmoBaseIds)
      (shown : DecksPage.updateDecksState (world.stored address)
        { address, emoBases, builtEmoBaseIds } = .ok page) :
      World.Step chain world { world with tabs := update world.tabs tab (.decks page) }
  | switchAccount (tab : Tab) (address : Address) {page after : DecksPage Address}
      (here : world.tabs tab = .decks page)
      (shown : { page with address }.updateDecksState (world.stored address) = .ok after) :
      World.Step chain world { world with tabs := update world.tabs tab (.decks after) }
  | click (tab : Tab) (button : DecksButton) {page after : DecksPage Address}
      {stored : StoredDecks} (here : world.tabs tab = .decks page)
      (enabled : page.enabled button = true)
      (clicked : page.onClick (world.stored page.address) button = .ok (stored, after)) :
      World.Step chain world { world with
        stored := update world.stored page.address stored
        tabs := update world.tabs tab (.decks after) }

end Steps

/-! ## The lists of the contract -/

/-- The contract has its bases and both lists. -/
def Listed (contract : Contract AccountId) : Prop :=
  ∃ bases fixedBaseIds builtBaseIds, contract.emoBases = some bases ∧
    contract.deckFixedEmoBaseIds = some fixedBaseIds ∧
    contract.deckBuiltEmoBaseIds = some builtBaseIds

structure SameLists (before after : Contract AccountId) : Prop where
  bases : after.emoBases = before.emoBases
  fixed : after.deckFixedEmoBaseIds = before.deckFixedEmoBaseIds
  built : after.deckBuiltEmoBaseIds = before.deckBuiltEmoBaseIds

theorem finishMtc_sameLists {context : Context AccountId} {player : AccountId} {place : Nat}
    {history : List GradeAndBoard} {before after : Contract AccountId}
    (performed : before.finishMtc context player place history = .ok after) :
    SameLists before after := by
  have bases := Contract.finishMtc_emoBases performed
  simp only [Contract.finishMtc, Result.bind_eq_ok_iff, Result.pure_eq_ok_iff] at performed
  obtain ⟨_, _, _, _, leaderboardOpt, _, placed, registered, rfl⟩ := performed
  have framed := Contract.addMatchmakingGhostOfHistory_frame registered
  have fixed := congrArg Contract.deckFixedEmoBaseIds framed
  have built := congrArg Contract.deckBuiltEmoBaseIds framed
  refine ⟨bases, ?_, ?_⟩
  · rw [fixed]
    cases leaderboardOpt <;> rfl
  · rw [built]
    cases leaderboardOpt <;> rfl

/-- Only an update changes the lists, and it stores all of them. -/
theorem executed_lists {chain : Chain AccountId} {before after : Contract AccountId}
    (executes : Contract.ExecutesKeeping chain before after) :
    SameLists before after ∨ Listed after := by
  obtain ⟨context, fuel, message, _, performed⟩ := executes
  cases Contract.execute_executed performed with
  | managed => exact .inl ⟨rfl, rfl, rfl⟩
  | updated => exact .inr ⟨_, _, _, rfl, rfl, rfl⟩
  | started performed =>
      obtain ⟨_, _, _, rfl⟩ := Contract.startMtc_cases performed
      exact .inl ⟨rfl, rfl, rfl⟩
  | finished performed =>
      obtain ⟨_, _, _, _, ending⟩ := Contract.finishMtcShop_cases performed
      obtain ⟨_, _, _, finished, rfl⟩ | ⟨_, _, rfl⟩ := ending
      · obtain ⟨bases, fixed, built⟩ := finishMtc_sameLists finished
        exact .inl ⟨bases, fixed, built⟩
      · exact .inl ⟨rfl, rfl, rfl⟩

theorem Listed.executed {chain : Chain AccountId} {before after : Contract AccountId}
    (listed : Listed before) (executes : Contract.ExecutesKeeping chain before after) :
    Listed after := by
  rcases executed_lists executes with same | listed
  · rwa [Listed, same.bases, same.fixed, same.built]
  · exact listed

/-- A match starts exactly when its pool can be built. -/
theorem startMtc_succeeds_iff {chain : Chain AccountId} {context : Context AccountId}
    {contract : Contract AccountId} {registrations : List (Registration AccountId)}
    {bases : Bases} {fixedBaseIds builtBaseIds deck : List Nat}
    (run : Contract.Run chain registrations contract) (origin : context.callerIsOrigin = true)
    (foundBases : contract.emoBases = some bases)
    (foundFixed : contract.deckFixedEmoBaseIds = some fixedBaseIds)
    (foundBuilt : contract.deckBuiltEmoBaseIds = some builtBaseIds) :
    Succeeds (contract.startMtc chain context deck) ↔
      Succeeds (buildPool deck bases fixedBaseIds builtBaseIds) := by
  have chosen (ep seed : Nat) := run.ghostsStored.chooseGhosts chain.sampler ep seed
  constructor
  · rintro ⟨after, started⟩
    simp only [Contract.startMtc, Contract.createOrUpdatePlayerEp_account, foundBases, foundFixed,
      foundBuilt, Result.bind_eq_ok_iff, okOr_eq_ok_iff, Option.some.injEq] at started
    obtain ⟨_, _, _, rfl, _, rfl, _, rfl, pool, built, _⟩ := started
    exact ⟨pool, built⟩
  · rintro ⟨pool, built⟩
    have seeded : Contract.getInsecureRandomSeed chain context context.caller "start_mtc" =
        .ok (chain.hashEncoded "start_mtc" context.caller context.blockTimestamp) := by
      rw [Contract.getInsecureRandomSeed, origin]
      rfl
    obtain ⟨ghosts, picked, _⟩ := chosen (contract.createOrUpdatePlayerEp context.caller).1
      (chain.hashEncoded "start_mtc" context.caller context.blockTimestamp)
    simp only [Succeeds, Contract.startMtc, Contract.createOrUpdatePlayerEp_account, foundBases,
      foundFixed, foundBuilt, Result.bind_eq_ok_iff, okOr_eq_ok_iff]
    exact ⟨_, _, seeded, _, rfl, _, rfl, _, rfl, pool, built, ghosts, picked, rfl⟩

/-! ## What the tabs send -/

/-- What a page builds is right as of the bases of the contract. -/
structure PageReady (bases : Bases) (page : DecksPage Address) : Prop where
  known : ∀ id base, page.emoBases id = some base → bases id = some base
  offers : ∀ groups picked,
    groupEmoBasesByGrades page.emoBases page.builtEmoBaseIds = .ok groups → Picks groups picked →
    OneOfEachGrade bases (picked.map Base.id)
  selected : ∀ selected, page.selected = some selected → ∃ groups picked,
    groupEmoBasesByGrades page.emoBases page.builtEmoBaseIds = .ok groups ∧
      Picks groups picked ∧ selected = picked.map Base.id

/-- So is the deck that it starts a match with. -/
structure PageSound (bases : Bases) (page : DecksPage Address) : Prop
    extends PageReady bases page where
  deck : OneOfEachGrade bases page.deck

/-- Every stored deck has a base of each grade. -/
def StoredDecks.Sound (bases : Bases) (stored : StoredDecks) : Prop :=
  ∀ decks, stored.customDecks = some decks → ∀ deck ∈ decks, OneOfEachGrade bases deck

section Page

variable {bases : Bases} {page after : DecksPage Address} {stored : StoredDecks}
variable {emoBases : Bases} {builtEmoBaseIds deck : List Nat}

/-- The default deck is one of those that the builder offers. -/
theorem getDefaultDeck_picks (default : getDefaultDeck emoBases builtEmoBaseIds = .ok deck) :
    ∃ groups picked, groupEmoBasesByGrades emoBases builtEmoBaseIds = .ok groups ∧
      Picks groups picked ∧ deck = picked.map Base.id := by
  rw [getDefaultDeck, Result.bind_eq_ok_iff] at default
  obtain ⟨groups, grouped, first⟩ := default
  obtain ⟨picked, picks, same⟩ := firstIds_picks first
  exact ⟨groups, picked, grouped, picks, same⟩

theorem getDecks_sound {decks : List (List Nat)} {selectedDeckIndex : Nat}
    (offers : ∀ groups picked, groupEmoBasesByGrades emoBases builtEmoBaseIds = .ok groups →
      Picks groups picked → OneOfEachGrade bases (picked.map Base.id))
    (sound : stored.Sound bases)
    (shown : getDecks stored emoBases builtEmoBaseIds = .ok (decks, selectedDeckIndex)) :
    ∀ deck ∈ decks, OneOfEachGrade bases deck := by
  rw [getDecks, Result.bind_eq_ok_iff] at shown
  obtain ⟨defaultDeck, default, shown⟩ := shown
  obtain ⟨groups, picked, grouped, picks, rfl⟩ := getDefaultDeck_picks default
  have first := offers groups picked grouped picks
  have all (customDecks : List (List Nat)) (custom : stored.customDecks = some customDecks) :
      ∀ deck ∈ picked.map Base.id :: customDecks, OneOfEachGrade bases deck :=
    List.forall_mem_cons.mpr ⟨first, sound customDecks custom⟩
  cases custom : stored.customDecks with
  | none =>
      simp only [custom, Result.pure_eq_ok_iff, Prod.mk.injEq] at shown
      obtain ⟨rfl, _⟩ := shown
      simpa using first
  | some customDecks =>
      cases index : stored.selectedDeckIndex <;>
        simp only [custom, index, Result.pure_eq_ok_iff, Prod.mk.injEq] at shown <;>
        exact shown.1 ▸ all customDecks custom

/-- The page that is shown again keeps the lists that it has read. -/
theorem PageReady.updateDecksState (ready : PageReady bases page) (sound : stored.Sound bases)
    (shown : page.updateDecksState stored = .ok after) : PageSound bases after := by
  simp only [DecksPage.updateDecksState, Result.bind_eq_ok_iff, okOr_eq_ok_iff,
    Result.pure_eq_ok_iff] at shown
  obtain ⟨⟨decks, selectedDeckIndex⟩, got, deck, here, rfl⟩ := shown
  have graded := getDecks_sound ready.offers sound got deck (List.mem_of_getElem? here)
  exact ⟨⟨ready.known, ready.offers, ready.selected⟩, graded⟩

/-- The builder is closed. -/
theorem PageReady.closed (ready : PageReady bases page) :
    PageReady bases { page with selected := none } := by
  refine ⟨ready.known, ready.offers, fun selected same => ?_⟩
  cases same

/-- The page is shown for another account. -/
theorem PageReady.switched (ready : PageReady bases page) (address : Address) :
    PageReady bases { page with address } :=
  ⟨ready.known, ready.offers, ready.selected⟩

theorem PageSound.mono {larger : Bases} (sound : PageSound bases page)
    (more : ∀ id base, bases id = some base → larger id = some base) : PageSound larger page := by
  refine ⟨⟨fun id base found => more id base (sound.known id base found), ?_, sound.selected⟩,
    sound.deck.mono more⟩
  intro groups picked grouped picks
  exact (sound.offers groups picked grouped picks).mono more

theorem StoredDecks.Sound.mono {larger : Bases} (sound : stored.Sound bases)
    (more : ∀ id base, bases id = some base → larger id = some base) : stored.Sound larger :=
  fun decks custom deck listed => (sound decks custom deck listed).mono more

theorem deleteDeck_sound {deckIndex : Nat} {left : StoredDecks} (sound : stored.Sound bases)
    (deleted : deleteDeck stored deckIndex = .ok left) : left.Sound bases := by
  simp only [deleteDeck, Result.bind_eq_ok_iff, Result.pure_eq_ok_iff] at deleted
  obtain ⟨_, _, rfl⟩ := deleted
  intro decks custom deck listed
  cases custom
  have old := List.mem_of_mem_eraseIdx listed
  cases kept : stored.customDecks with
  | none => simp [kept] at old
  | some decks => exact sound decks kept deck (by simpa [kept] using old)

theorem addDeck_sound {left : StoredDecks} (sound : stored.Sound bases)
    (graded : OneOfEachGrade bases deck)
    (added : addDeck stored deck emoBases builtEmoBaseIds = .ok left) : left.Sound bases := by
  simp only [addDeck, Result.bind_eq_ok_iff, Result.pure_eq_ok_iff] at added
  obtain ⟨defaultDeck, _, rfl⟩ := added
  split
  · exact sound
  · intro decks custom other listed
    cases custom
    rcases List.mem_append.mp listed with old | new
    · cases kept : stored.customDecks with
      | none => simp [kept] at old
      | some decks => exact sound decks kept other (by simpa [kept] using old)
    · rwa [List.mem_singleton.mp new]

theorem selectDeckIndex_sound {deckIndex : Nat} {left : StoredDecks} (sound : stored.Sound bases)
    (chosen : selectDeckIndex stored deckIndex emoBases builtEmoBaseIds = .ok left) :
    left.Sound bases := by
  simp only [selectDeckIndex, Result.bind_eq_ok_iff, Result.pure_eq_ok_iff] at chosen
  obtain ⟨_, _, _, _, rfl⟩ := chosen
  exact sound

/-- Every button leaves decks with one base for each grade. -/
theorem onClick_sound {button : DecksButton} {left : StoredDecks} (pageSound : PageSound bases page)
    (sound : stored.Sound bases) (enabled : page.enabled button = true)
    (clicked : page.onClick stored button = .ok (left, after)) :
    left.Sound bases ∧ PageSound bases after := by
  obtain ⟨ready, graded⟩ := pageSound
  cases button with
  | select deckIndex =>
      simp only [DecksPage.onClick, Result.bind_eq_ok_iff, Result.pure_eq_ok_iff,
        Prod.mk.injEq] at clicked
      obtain ⟨_, chosen, _, shown, rfl, rfl⟩ := clicked
      have next := selectDeckIndex_sound sound chosen
      exact ⟨next, ready.updateDecksState next shown⟩
  | delete deckIndex =>
      simp only [DecksPage.onClick, Result.bind_eq_ok_iff, Result.pure_eq_ok_iff,
        Prod.mk.injEq] at clicked
      obtain ⟨_, deleted, _, shown, rfl, rfl⟩ := clicked
      have next := deleteDeck_sound sound deleted
      exact ⟨next, ready.updateDecksState next shown⟩
  | buildNewDeck =>
      simp only [DecksPage.onClick, Result.bind_eq_ok_iff, Result.pure_eq_ok_iff,
        Prod.mk.injEq] at clicked
      obtain ⟨first, default, rfl, rfl⟩ := clicked
      refine ⟨sound, ⟨ready.known, ready.offers, fun selected same => ?_⟩, graded⟩
      cases same
      exact getDefaultDeck_picks default
  | base index id =>
      simp only [DecksPage.onClick, Result.pure_eq_ok_iff, Prod.mk.injEq] at clicked
      obtain ⟨rfl, rfl⟩ := clicked
      refine ⟨sound, ⟨ready.known, ready.offers, fun changed same => ?_⟩, graded⟩
      obtain ⟨old, building, rfl⟩ := Option.map_eq_some_iff.mp same
      obtain ⟨groups, picked, grouped, picks, rfl⟩ := ready.selected old building
      simp only [DecksPage.enabled, grouped, Except.toOption, Option.any_some, Bool.and_eq_true,
        Option.any_eq_true, List.any_eq_true, decide_eq_true_eq] at enabled
      obtain ⟨_, group, here, base, member, rfl⟩ := enabled
      exact ⟨groups, picked.set index base, grouped, picks.set here member, List.map_set.symm⟩
  | save =>
      simp only [DecksPage.onClick, Result.bind_eq_ok_iff, Result.pure_eq_ok_iff,
        Prod.mk.injEq] at clicked
      obtain ⟨_, added, _, shown, rfl, rfl⟩ := clicked
      obtain ⟨chosen, building⟩ := Option.isSome_iff_exists.mp enabled
      obtain ⟨groups, picked, grouped, picks, rfl⟩ := ready.selected chosen building
      rw [building, Option.getD_some] at added
      have next := addDeck_sound sound (ready.offers groups picked grouped picks) added
      exact ⟨next, ready.closed.updateDecksState next shown⟩
  | cancel =>
      simp only [DecksPage.onClick, Result.bind_eq_ok_iff, Result.pure_eq_ok_iff,
        Prod.mk.injEq] at clicked
      obtain ⟨_, shown, rfl, rfl⟩ := clicked
      exact ⟨sound, ready.closed.updateDecksState sound shown⟩

end Page

/-! ## Runs -/

/-- What a tab has read is part of what the contract stores. -/
def TabSound (contract : Contract AccountId) : TabState Address → Prop
  | .closed => True
  | .connected emoBases => Listed contract ∧
      ∀ id base, emoBases id = some base → contract.findBase id = some base
  | .decks page => Listed contract ∧ PageSound contract.findBase page

structure World.Sound (chain : Chain AccountId) (world : World AccountId Address Tab) : Prop where
  bases : Contract.BasesStored world.contract
  run : ∃ registrations, Contract.Run chain registrations world.contract
  lists : world.contract.emoBases.isSome = true → Listed world.contract
  accepts : AcceptsDefault world.contract
  stored : ∀ address, (world.stored address).Sound world.contract.findBase
  tabs : ∀ tab, TabSound world.contract (world.tabs tab)

namespace World

variable {chain : Chain AccountId} {world after : World AccountId Address Tab}

omit [DecidableEq AccountId] in
theorem findBase_eq {contract : Contract AccountId} {bases : Bases}
    (found : contract.emoBases = some bases) : contract.findBase = bases := by
  funext id
  rw [Contract.findBase, found, Option.bind_some]

/-- A tab with another state. -/
theorem Sound.show [DecidableEq Tab] {tab : Tab} {state : TabState Address}
    (sound : world.Sound chain) (tabSound : TabSound world.contract state) :
    Sound chain { world with tabs := update world.tabs tab state } := by
  refine ⟨sound.bases, sound.run, sound.lists, sound.accepts, sound.stored, ?_⟩
  exact (Function.forall_update_iff _ _).mpr ⟨tabSound, fun other _ => sound.tabs other⟩

theorem Sound.store [DecidableEq Address] {address : Address} {stored : StoredDecks}
    (sound : world.Sound chain) (stores : stored.Sound world.contract.findBase) :
    Sound chain { world with stored := update world.stored address stored } := by
  refine ⟨sound.bases, sound.run, sound.lists, sound.accepts, ?_, sound.tabs⟩
  exact (Function.forall_update_iff _ _).mpr ⟨stores, fun other _ => sound.stored other⟩

/-- The built ids that a tab has just read. -/
theorem Sound.ready {tab : Tab} {emoBases : Bases} {builtEmoBaseIds : List Nat}
    (sound : world.Sound chain) (connected : (world.tabs tab).emoBases? = some emoBases)
    (found : world.contract.deckBuiltEmoBaseIds = some builtEmoBaseIds) (address : Address) :
    Listed world.contract ∧ PageReady world.contract.findBase
      ({ address, emoBases, builtEmoBaseIds } : DecksPage Address) := by
  have tabSound := sound.tabs tab
  obtain ⟨listed, known⟩ : Listed world.contract ∧
      ∀ id base, emoBases id = some base → world.contract.findBase id = some base := by
    cases state : world.tabs tab with
    | closed => simp [state, TabState.emoBases?] at connected
    | connected read =>
        rw [state] at connected tabSound
        cases connected
        exact tabSound
    | decks page =>
        rw [state] at connected tabSound
        cases connected
        exact ⟨tabSound.1, tabSound.2.known⟩
  refine ⟨listed, known, ?_, by simp⟩
  intro groups picked grouped picks
  obtain ⟨bases, fixedBaseIds, _, foundBases, foundFixed, _⟩ := listed
  obtain ⟨deck, default, accepted⟩ := sound.accepts _ _ _ foundBases foundFixed found
  rw [findBase_eq foundBases] at known ⊢
  exact offers_of_accepted (sound.bases.keyed bases foundBases) default accepted
    (groupEmoBasesByGrades_mono known grouped) picks

theorem sound_deployed (deployer : AccountId) :
    Sound chain (deployed deployer : World AccountId Address Tab) := by
  refine ⟨Contract.basesStored_new deployer, ⟨[], .deployed deployer⟩, fun stored => ?_, ?_,
    ?_, fun _ => trivial⟩
  · cases stored
  · intro bases fixedBaseIds builtBaseIds found
    cases found
  · intro address decks custom
    cases custom

variable [DecidableEq Address] [DecidableEq Tab]

theorem Step.sound (step : world.Step chain after) (sound : world.Sound chain) :
    after.Sound chain := by
  cases step with
  | message executes accepts =>
      obtain ⟨registrations, run⟩ := sound.run
      obtain ⟨bases, more⟩ := executes.step sound.bases
      have kept : Listed world.contract → Listed _ := fun listed => listed.executed executes
      have lists := executed_lists executes
      obtain ⟨context, fuel, message, _, performed⟩ := executes
      refine ⟨bases, ⟨_, .executed context fuel message run performed⟩, fun stored => ?_, accepts,
        fun address => (sound.stored address).mono more, fun tab => ?_⟩
      · rcases lists with same | listed
        · exact kept (sound.lists (same.bases ▸ stored))
        · exact listed
      · have tabSound := sound.tabs tab
        cases state : world.tabs tab with
        | closed => exact trivial
        | connected emoBases =>
            rw [state] at tabSound
            exact ⟨kept tabSound.1, fun id base found => more id base (tabSound.2 id base found)⟩
        | decks page =>
            rw [state] at tabSound
            exact ⟨kept tabSound.1, tabSound.2.mono more⟩
  | close tab => exact sound.show trivial
  | connect tab read =>
      refine sound.show ⟨sound.lists (by rw [read]; rfl), fun id base found => ?_⟩
      rwa [findBase_eq read]
  | setup tab address connected found shown =>
      obtain ⟨listed, ready⟩ := sound.ready connected found address
      exact sound.show ⟨listed, ready.updateDecksState (sound.stored address) shown⟩
  | switchAccount tab address here shown =>
      have tabSound := sound.tabs tab
      rw [here] at tabSound
      have ready := tabSound.2.toPageReady.switched address
      exact sound.show ⟨tabSound.1, ready.updateDecksState (sound.stored address) shown⟩
  | click tab button here enabled clicked =>
      have tabSound := sound.tabs tab
      rw [here] at tabSound
      obtain ⟨stores, next⟩ := onClick_sound tabSound.2 (sound.stored _) enabled clicked
      exact (sound.store stores).show ⟨tabSound.1, next⟩

theorem sound_of_run {deployer : AccountId}
    (run : Relation.ReflTransGen (Step chain) (deployed deployer) world) : world.Sound chain := by
  induction run with
  | refl => exact sound_deployed deployer
  | tail _ step ih => exact step.sound ih

end World

end World

end EmojiBattler.Front
