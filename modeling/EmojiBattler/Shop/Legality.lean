import EmojiBattler.Mtc.DataErrors
import EmojiBattler.Battle.Failures
import EmojiBattler.Shop.Effects

/-! # Legal abilities

An ability is legal if every base id that it names resolves and every divisor
of it is positive, however deep they are nested.  Legal emos stay legal, and
whatever goes wrong among them is not the fault of the data. -/

namespace EmojiBattler.Mtc.Shop

open EmojiBattler.Emo Sampling CallMachine Contracts
open EmojiBattler.Emo.Ability (Destination Target TypOptAndIsTripleOpt)
open EmojiBattler.Emo.Ability.Shop (NormalAction Peri PeriAsAllyAction Pre)

/-! ## Legal input -/

mutual

def LegalAbility (bases : Bases) : Ability → Prop
  | .shop shop => LegalShop bases shop
  | .battle battle => Battle.LegalBattle bases battle

def LegalShop (bases : Bases) : Ability.Shop → Prop
  | .pre pre => LegalPre bases pre
  | .peri peri => LegalPeri bases peri
  | .special _ => True

def LegalPre (bases : Bases) : Pre → Prop
  | .normal action => LegalAction bases action
  | .random _ => True

def LegalPeri (bases : Bases) : Peri → Prop
  | .asOneself _ action => LegalAction bases action
  | .asAlly _ action => LegalAsAllyAction bases action

def LegalAsAllyAction (bases : Bases) : PeriAsAllyAction → Prop
  | .oneselfTripleNormal action => LegalAction bases action
  | .custom _ => True

def LegalAction (bases : Bases) : NormalAction → Prop
  | .setEmo baseId => Resolves bases baseId
  | .getCoinByEmoCountDiv _ divisor => divisor ≠ 0
  | .addAbility _ ability => LegalAbility bases ability
  | .increaseStats .. | .increaseStatsByEmoCount .. | .increaseStatsByGrade ..
  | .increaseStatsOfAdjacentMenagerie .. | .getCoin .. => True

end

structure LegalEmo (bases : Bases) (emo : ShopBoardEmo) : Prop where
  base : Resolves bases emo.baseId
  abilities : ∀ ability ∈ emo.attributes.abilities, LegalAbility bases ability

def LegalBoard (bases : Bases) (board : ShopBoard) : Prop := ∀ emo ∈ board, LegalEmo bases emo

/-- A base is filed under an id that may differ from the one its emos get, so
this one has to resolve as well. -/
structure LegalBase (bases : Bases) (base : Base) : Prop where
  id : Resolves bases base.id
  abilities : ∀ ability ∈ base.abilities, LegalAbility bases ability

def LegalBases (bases : Bases) : Prop := ∀ id base, bases id = some base → LegalBase bases base

def LegalPointer (bases : Bases) : EmoPointer → Prop
  | .onBoard _ => True
  | .removed emo _ => LegalEmo bases emo

/-- What the tasks of the cascade carry is legal. -/
def LegalTask {sampler : Sampler} (bases : Bases) : Task sampler → Prop
  | .callPreAbilities _ abilities => ∀ entry ∈ abilities, LegalPre bases entry.2
  | .callAbilityActionAsOneself action actionEmoPointer
  | .callAbilityAction action actionEmoPointer _ =>
      LegalAction bases action ∧ LegalPointer bases actionEmoPointer
  | .callAbilityActionAsAlly action _ allyEmoPointer =>
      LegalAsAllyAction bases action ∧ LegalPointer bases allyEmoPointer
  | .callBoardAdditionAbilities .. | .processTriple .. | .setEmoReturn ..
  | .processTripleReturn .. => True

def LegalTasks {sampler : Sampler} (bases : Bases) (tasks : List (Task sampler)) : Prop :=
  ∀ task ∈ tasks, LegalTask bases task

/-! ## Lookups -/

variable {bases : Bases}
variable {board : ShopBoard} {id : Nat}

theorem sound_getEmoById : Sound (board.getEmoById id) fun emo => emo ∈ board :=
  (sound_okOr (by trivial)).mono fun _ found => List.mem_of_find?_eq_some found

theorem sound_getEmoMutById : Sound (board.getEmoMutById id) fun emo => emo ∈ board :=
  (sound_okOr (by trivial)).mono fun _ found => List.mem_of_find?_eq_some found

theorem sound_getEmoMutAndIndexById :
    Sound (board.getEmoMutAndIndexById id) fun found => board[found.2]? = some found.1 := by
  have lookup : Sound (board.getEmoMutAndIndexById id) fun _ => True :=
    sound_findZipU8.andThen fun _ _ => (sound_okOr (by trivial)).mono fun _ _ => trivial
  exact lookup.and_performed.mono fun _ known => (ShopBoard.getEmoMutAndIndexById_found known.1).1

theorem sound_getEmoAndIndexById :
    Sound (board.getEmoAndIndexById id) fun found => found.1 ∈ board := by
  have lookup : Sound (board.getEmoAndIndexById id) fun _ => True :=
    sound_findZipU8.andThen fun _ _ => (sound_okOr (by trivial)).mono fun _ _ => trivial
  exact lookup.and_performed.mono fun _ known =>
    List.mem_of_getElem? (ShopBoard.getEmoAndIndexById_found known.1).1

theorem sound_getEmoIndexById : Sound (board.getEmoIndexById id) fun _ => True :=
  sound_findZipU8.andThen fun _ _ => (sound_okOr (by trivial)).mono fun _ _ => trivial

/-! ## Pointers and targets -/

variable {env : Env} {emoPointer : EmoPointer} {typAndTriple : TypOptAndIsTripleOpt}

theorem sound_getEmo (legal : LegalBoard bases board) (pointer : LegalPointer bases emoPointer) :
    Sound (emoPointer.getEmo board) (LegalEmo bases) := by
  cases emoPointer with
  | onBoard emoId => exact sound_getEmoById.mono legal
  | removed emo prevEmoIndex => exact pointer

theorem sound_getEmoIndex : Sound (emoPointer.getEmoIndex board) fun _ => True := by
  cases emoPointer with
  | onBoard emoId => exact sound_getEmoIndexById
  | removed emo prevEmoIndex => trivial

theorem sound_getRightEmoIndex : Sound (emoPointer.getRightEmoIndex board) fun _ => True := by
  cases emoPointer with
  | onBoard emoId => exact sound_getEmoIndexById.map fun _ _ => trivial
  | removed emo prevEmoIndex => trivial

theorem sound_isMatchedTypAndTripleBoardEmo {emo : ShopBoardEmo}
    (legal : LegalEmo env.emoBases emo) :
    Sound (isMatchedTypAndTripleBoardEmo env typAndTriple emo) fun _ => True := by
  unfold isMatchedTypAndTripleBoardEmo
  split
  · trivial
  · exact (sound_find legal.base).bind fun _ _ => trivial

theorem sound_countEmosByTypAndTriple (legal : LegalBoard env.emoBases board) :
    Sound (countEmosByTypAndTriple env board emoPointer typAndTriple) fun _ => True := by
  refine Meets.foldlM trivial fun emo member count _ => ?_
  unfold countEmoByTypAndTriple
  split
  · trivial
  · refine (sound_isMatchedTypAndTripleBoardEmo (legal emo member)).bind fun isMatched _ => ?_
    split
    · exact sound_addU8
    · trivial

theorem sound_getRightEmoId : Sound (getRightEmoId board emoPointer) fun _ => True :=
  sound_getRightEmoIndex.bind fun _ _ => trivial

theorem sound_getLeftEmoId : Sound (getLeftEmoId board emoPointer) fun _ => True := by
  refine sound_getEmoIndex.bind fun index _ => ?_
  split
  · exact (sound_okOr (by trivial)).map fun _ _ => trivial
  · trivial

theorem sound_filterMatchedEmoIds {ids : List Nat} (legal : LegalBoard env.emoBases board) :
    Sound (filterMatchedEmoIds env board typAndTriple ids) fun _ => True := by
  induction ids with
  | nil => trivial
  | cons id rest ih =>
      refine sound_getEmoById.bind fun emo member => ?_
      refine (sound_isMatchedTypAndTripleBoardEmo (legal emo member)).bind fun isMatched _ => ?_
      exact ih.bind fun _ _ => trivial

theorem sound_getEmoIdsByTarget {target : Target} (legal : LegalBoard env.emoBases board) :
    Sound (getEmoIdsByTarget env board emoPointer target) fun _ => True := by
  cases target with
  | oneself => cases emoPointer <;> trivial
  | others destination typAndTriple =>
      have ids : Sound (getEmoIdsByDestination board emoPointer destination) fun _ => True := by
        cases destination with
        | right => exact sound_getRightEmoId.map fun _ _ => trivial
        | left => exact sound_getLeftEmoId.map fun _ _ => trivial
        | all => trivial
      exact ids.bind fun _ _ => sound_filterMatchedEmoIds legal

/-! ## Changing emos -/

variable {state : ShopState}

/-- The boards after a change that keeps them legal. -/
abbrev LegalAfter (bases : Bases) (after : ShopState) : Prop := LegalBoard bases after.board

theorem LegalBoard.set {index : Nat} {emo : ShopBoardEmo} (legal : LegalBoard bases board)
    (changed : LegalEmo bases emo) : LegalBoard bases (board.set index emo) := by
  intro other member
  rcases List.mem_or_eq_of_mem_set member with old | rfl
  · exact legal other old
  · exact changed

theorem LegalBoard.insertIdx {index : Nat} {emo : ShopBoardEmo} (legal : LegalBoard bases board)
    (new : LegalEmo bases emo) : LegalBoard bases (board.insertIdx index emo) := by
  intro other member
  rcases List.eq_or_mem_of_mem_insertIdx member with rfl | old
  · exact new
  · exact legal other old

theorem LegalBoard.filter {p : ShopBoardEmo → Bool} (legal : LegalBoard bases board) :
    LegalBoard bases (board.filter p) :=
  fun emo member => legal emo (List.mem_filter.mp member).1

theorem sound_addAttackAndHealthToEmo {attack health : Nat}
    (legal : LegalBoard bases state.board) :
    Sound (addAttackAndHealthToEmo env attack health state id) (LegalAfter bases) := by
  refine sound_getEmoMutAndIndexById.bind fun ⟨emo, index⟩ found => ?_
  obtain ⟨base, abilities⟩ := legal emo (List.mem_of_getElem? found)
  simp only [meets_pure_iff, LegalAfter, ShopState.setEmoAt, ShopState.addLog_board]
  exact legal.set ⟨base, abilities⟩

theorem sound_addAttackAndHealthToEmos {target : Target} {attack health : Nat}
    (legal : LegalBoard env.emoBases state.board) :
    Sound (addAttackAndHealthToEmos env emoPointer target attack health state)
      (LegalAfter env.emoBases) :=
  (sound_getEmoIdsByTarget legal).bind fun _ _ =>
    Meets.foldlM legal fun _ _ _ holds => sound_addAttackAndHealthToEmo holds

theorem sound_addAbilityToEmo {ability : Ability} (legal : LegalBoard bases state.board)
    (added : LegalAbility bases ability) :
    Sound (addAbilityToEmo env ability state id) (LegalAfter bases) := by
  refine sound_getEmoMutAndIndexById.bind fun ⟨emo, index⟩ found => ?_
  obtain ⟨base, abilities⟩ := legal emo (List.mem_of_getElem? found)
  dsimp only
  split
  · exact legal
  · simp only [meets_pure_iff, LegalAfter, ShopState.setEmoAt, ShopState.addLog_board]
    refine legal.set ⟨base, fun other member => ?_⟩
    rcases List.mem_append.mp member with old | new
    · exact abilities other old
    · rwa [List.mem_singleton.mp new]

theorem sound_addAbility {target : Target} {ability : Ability}
    (legal : LegalBoard env.emoBases state.board) (added : LegalAbility env.emoBases ability) :
    Sound (addAbility env emoPointer target ability state) (LegalAfter env.emoBases) :=
  (sound_getEmoIdsByTarget legal).bind fun _ _ =>
    Meets.foldlM legal fun _ _ _ holds => sound_addAbilityToEmo holds added

theorem sound_increaseStatsOfLeft {attack health : Nat}
    (legal : LegalBoard env.emoBases state.board) :
    Sound (increaseStatsOfLeft env emoPointer attack health state)
      fun result => LegalBoard env.emoBases result.2.board := by
  refine sound_getLeftEmoId.bind fun idOpt _ => ?_
  cases idOpt with
  | none => exact legal
  | some id =>
      refine sound_getEmoById.bind fun emo member => ?_
      refine (sound_find (legal emo member).base).bind fun base _ => ?_
      exact (sound_addAttackAndHealthToEmo legal).bind fun after holds => holds

theorem sound_increaseStatsOfRight {leftTypOpt : Option Typ} {attack health : Nat}
    (legal : LegalBoard env.emoBases state.board) :
    Sound (increaseStatsOfRight env emoPointer leftTypOpt attack health state)
      (LegalAfter env.emoBases) := by
  refine sound_getRightEmoId.bind fun idOpt _ => ?_
  cases idOpt with
  | none => exact legal
  | some id =>
      refine sound_getEmoById.bind fun emo member => ?_
      cases leftTypOpt with
      | none => exact sound_addAttackAndHealthToEmo legal
      | some leftTyp =>
          refine (sound_find (legal emo member).base).bind fun base _ => ?_
          split
          · exact sound_addAttackAndHealthToEmo legal
          · exact legal

theorem sound_increaseStatsOfMenagerieLoop {actionEmoId typCount attack health : Nat}
    {emoIds : List Nat} {typs : List Typ} (legal : LegalBoard env.emoBases state.board) :
    Sound (increaseStatsOfMenagerieLoop env actionEmoId typCount attack health emoIds typs state)
      (LegalAfter env.emoBases) := by
  induction emoIds generalizing typs state with
  | nil => exact legal
  | cons candidateEmoId rest ih =>
      unfold increaseStatsOfMenagerieLoop
      split
      · exact ih legal
      · refine sound_getEmoMutById.bind fun emo member => ?_
        refine (sound_find (legal emo member).base).bind fun base _ => ?_
        split
        · exact ih legal
        · refine (sound_addAttackAndHealthToEmo legal).bind fun after holds => ?_
          split
          · exact holds
          · exact ih holds

theorem sound_increaseStatsOfMenagerie {rng : env.sampler.Rng}
    {actionEmoId typCount attack health : Nat} (legal : LegalBoard env.emoBases state.board) :
    Sound (increaseStatsOfMenagerie env rng actionEmoId typCount attack health state)
      fun result => LegalBoard env.emoBases result.2.board :=
  sound_getEmoById.bind fun _ _ =>
    (sound_increaseStatsOfMenagerieLoop legal).bind fun _ holds => holds

/-! ## Adding emos -/

/-- The calls of a task and the state after it. -/
abbrev LegalCalls (env : Env) (result : Calls env) : Prop :=
  LegalTasks env.emoBases result.1 ∧ LegalBoard env.emoBases result.2.board

theorem legalTasks_append {sampler : Sampler} {first second : List (Task sampler)} :
    LegalTasks bases (first ++ second) ↔ LegalTasks bases first ∧ LegalTasks bases second :=
  List.forall_mem_append

theorem legalTasks_singleton {sampler : Sampler} {task : Task sampler} :
    LegalTasks bases [task] ↔ LegalTask bases task :=
  List.forall_mem_singleton

theorem LegalEmo.peri {emo : ShopBoardEmo} {peri : Peri} (legal : LegalEmo bases emo)
    (listed : peri ∈ emo.getPeriAbilities) : LegalPeri bases peri := by
  obtain ⟨ability, member, same⟩ := List.mem_filterMap.mp listed
  have legal := legal.abilities ability member
  unfold periAbility? at same
  split at same
  · cases same
    simpa only [LegalAbility, LegalShop] using legal
  · cases same

theorem legalPeri_asOneself {trigger : Ability.Shop.PeriAsOneselfTrigger} {action : NormalAction} :
    LegalPeri bases (.asOneself trigger action) ↔ LegalAction bases action := by
  rw [LegalPeri]

theorem legalAction_of_setAction {peri : Peri} {action : NormalAction}
    (legal : LegalPeri bases peri) (sets : setAction? peri = some action) :
    LegalAction bases action := by
  unfold setAction? at sets
  split at sets
  · cases sets
    exact legalPeri_asOneself.mp legal
  · cases sets

theorem legalAction_of_sellAction {peri : Peri} {action : NormalAction}
    (legal : LegalPeri bases peri) (sells : sellAction? peri = some action) :
    LegalAction bases action := by
  unfold sellAction? at sells
  split at sells
  · cases sells
    exact legalPeri_asOneself.mp legal
  · cases sells

theorem sound_callEmoAdditionAbilities (legal : LegalBoard env.emoBases state.board) :
    Sound (callEmoAdditionAbilities env id state) (LegalTasks env.emoBases) := by
  refine sound_getEmoById.bind fun emo member => ?_
  refine (sound_find (legal emo member).base).bind fun base _ => ?_
  rw [meets_pure_iff, legalTasks_append, legalTasks_singleton]
  refine ⟨fun task called => ?_, trivial⟩
  obtain ⟨action, sets, rfl⟩ := List.mem_map.mp called
  obtain ⟨peri, listed, sets⟩ := List.mem_filterMap.mp sets
  exact ⟨legalAction_of_setAction ((legal emo member).peri listed) sets, trivial⟩

theorem sound_addEmoWithBoardEmo {newBoardEmo : ShopBoardEmo} {emoIndex : Nat}
    (legal : LegalBoard env.emoBases state.board) (new : LegalEmo env.emoBases newBoardEmo) :
    Sound (addEmoWithBoardEmo env newBoardEmo emoIndex state) (LegalCalls env) := by
  refine (sound_ensure (by trivial)).bind fun _ _ => ?_
  refine (sound_ensure (by trivial)).bind fun _ _ => ?_
  have inserted : LegalBoard env.emoBases
      ((state.addLog env (.add emoIndex newBoardEmo.intoBoardEmo)).board.insertIdx emoIndex
        newBoardEmo) := by
    rw [ShopState.addLog_board]
    exact legal.insertIdx new
  refine (sound_callEmoAdditionAbilities inserted).bind fun calls holds => ⟨?_, inserted⟩
  rw [legalTasks_append]
  refine ⟨holds, ?_⟩
  split
  · exact List.forall_mem_nil _
  · exact legalTasks_singleton.mpr trivial

theorem LegalBase.newWithBase {base : Base} (legal : LegalBase bases base)
    (generatedIds : Nat) (mtcEmoIds : List Nat) (isTriple : Bool) :
    LegalEmo bases (.newWithBase generatedIds mtcEmoIds base isTriple) :=
  ⟨legal.id, legal.abilities⟩

theorem sound_addEmoCalls {mtcEmoIds : List Nat} {baseId emoIndex : Nat} {isTriple : Bool}
    (bases : LegalBases env.emoBases) (legal : LegalBoard env.emoBases state.board)
    (resolves : Resolves env.emoBases baseId) :
    Sound (addEmoCalls env mtcEmoIds baseId isTriple emoIndex state) (LegalCalls env) :=
  (sound_find resolves).bind fun _ found =>
    sound_addEmoWithBoardEmo legal ((bases _ _ found).newWithBase _ _ _)

theorem sound_setEmo {isTripleAction : Bool} {baseId : Nat} (bases : LegalBases env.emoBases)
    (legal : LegalBoard env.emoBases state.board) (resolves : Resolves env.emoBases baseId) :
    Sound (setEmo env emoPointer isTripleAction baseId state) (LegalCalls env) := by
  unfold setEmo
  split
  · refine sound_getRightEmoIndex.bind fun index _ => ?_
    refine (sound_addEmoCalls bases legal resolves).bind fun ⟨calls, after⟩ holds => ?_
    exact ⟨legalTasks_append.mpr ⟨holds.1, legalTasks_singleton.mpr trivial⟩, holds.2⟩
  · exact ⟨List.forall_mem_nil _, legal⟩

/-! ## Triples -/

theorem sound_buildTripleEmo {generatedIds targetBaseId : Nat} {sources : List ShopBoardEmo}
    (bases : LegalBases env.emoBases) (legal : LegalBoard env.emoBases sources)
    (resolves : Resolves env.emoBases targetBaseId) :
    Sound (buildTripleEmo env generatedIds sources targetBaseId) (LegalEmo env.emoBases) := by
  refine (sound_find resolves).bind fun base found => ?_
  have nums : Sound (buildTripleEmoNums base sources) fun _ => True :=
    sound_sumU16.bind fun _ _ => sound_sumU16.bind fun _ _ => trivial
  refine nums.bind fun _ _ => ⟨(bases _ _ found).id, fun ability member => ?_⟩
  rcases List.mem_append.mp member with own | brought
  · exact (bases _ _ found).abilities ability own
  · obtain ⟨emo, source, inside⟩ := List.mem_flatMap.mp brought
    exact (legal emo source).abilities ability (List.mem_filter.mp inside).1

theorem sound_processTriple {newEmoId : Nat} (bases : LegalBases env.emoBases)
    (legal : LegalBoard env.emoBases state.board) :
    Sound (processTriple env newEmoId state) (LegalCalls env) := by
  refine sound_getEmoAndIndexById.bind fun ⟨target, newEmoIndex⟩ member => ?_
  refine sound_zipU8.bind fun _ indexed => ?_
  subst indexed
  dsimp only
  split
  · rw [removeTripleEmos_filter]
    refine (sound_buildTripleEmo bases legal.filter (legal target member).base).bind
      fun triple new => ?_
    refine (sound_okOr (by trivial)).bind fun tripleIndex _ => ?_
    have rest : ∀ removedIndexes, LegalBoard env.emoBases
        (ShopState.addLog env { state with
            board := state.board.filter fun emo => !isSameBaseNotTriple target.baseId emo
            generatedIds := state.generatedIds + 1 } (.triple removedIndexes)).board := by
      intro removedIndexes
      rw [ShopState.addLog_board]
      exact legal.filter
    refine (sound_addEmoWithBoardEmo (rest _) new).bind fun ⟨calls, after⟩ holds => ?_
    exact ⟨legalTasks_append.mpr ⟨holds.1, legalTasks_singleton.mpr trivial⟩, holds.2⟩
  · exact ⟨fun _ inside => (nomatch inside), legal⟩

/-! ## Tasks -/

theorem sound_callAbilityAction {action : NormalAction} {isTripleAction : Bool}
    (bases : LegalBases env.emoBases) (legal : LegalBoard env.emoBases state.board)
    (acts : LegalAction env.emoBases action) (pointer : LegalPointer env.emoBases emoPointer) :
    Sound (callAbilityAction env action emoPointer isTripleAction state) (LegalCalls env) := by
  have no_calls {result : Result ShopState} (sound : Sound result (LegalAfter env.emoBases)) :
      Sound (([], ·) <$> result : Result (Calls env)) (LegalCalls env) :=
    sound.map fun after holds => ⟨List.forall_mem_nil _, holds⟩
  cases action with
  | setEmo baseId =>
      rw [LegalAction] at acts
      exact sound_setEmo bases legal acts
  | increaseStats target attack health => exact no_calls (sound_addAttackAndHealthToEmos legal)
  | increaseStatsByEmoCount target countCondition attack health =>
      apply no_calls
      exact (sound_countEmosByTypAndTriple legal).bind fun _ _ =>
        sound_addAttackAndHealthToEmos legal
  | increaseStatsByGrade target attack health =>
      apply no_calls
      refine (sound_getEmo legal pointer).bind fun actionEmo known => ?_
      exact (sound_find known.base).bind fun _ _ => sound_addAttackAndHealthToEmos legal
  | increaseStatsOfAdjacentMenagerie attack health =>
      apply no_calls
      exact (sound_increaseStatsOfLeft legal).bind fun _ holds => sound_increaseStatsOfRight holds
  | addAbility target ability =>
      rw [LegalAction] at acts
      exact no_calls (sound_addAbility legal acts)
  | getCoin coin => exact ⟨List.forall_mem_nil _, legal⟩
  | getCoinByEmoCountDiv countCondition divisor =>
      rw [LegalAction] at acts
      apply no_calls
      refine (sound_countEmosByTypAndTriple legal).bind fun count _ => ?_
      rw [ensure, if_pos acts]
      exact legal

theorem sound_callAbilityActionAsAlly {action : PeriAsAllyAction} {oneselfEmoId : Nat}
    (legal : LegalBoard env.emoBases state.board)
    (acts : LegalAsAllyAction env.emoBases action)
    (pointer : LegalPointer env.emoBases emoPointer) :
    Sound (callAbilityActionAsAlly env action oneselfEmoId emoPointer state) (LegalCalls env) := by
  refine sound_getEmoById.bind fun oneselfEmo _ => ?_
  match action with
  | .oneselfTripleNormal normalAction =>
      rw [LegalAsAllyAction] at acts
      exact ⟨legalTasks_singleton.mpr ⟨acts, pointer⟩, legal⟩
  | .custom .triggerSetActions =>
      refine (sound_getEmo legal pointer).bind fun allyEmo known => ⟨fun task called => ?_, legal⟩
      obtain ⟨normalAction, sets, inside⟩ := List.mem_flatMap.mp called
      obtain ⟨peri, listed, sets⟩ := List.mem_filterMap.mp sets
      have same : task = .callAbilityAction normalAction emoPointer
          allyEmo.attributes.isTriple := by
        split at inside <;> simpa using inside
      rw [same]
      exact ⟨legalAction_of_setAction (known.peri listed) sets, pointer⟩

theorem legalTask_additionCall {newEmoId abilityEmoId : Nat} {newEmoTyp : Typ}
    {isNewEmoTriple : Bool} {ability : Peri} {call : Task env.sampler}
    (legal : LegalPeri env.emoBases ability)
    (called : additionCall? env newEmoId newEmoTyp isNewEmoTriple abilityEmoId ability =
      some call) : LegalTask env.emoBases call := by
  unfold additionCall? at called
  split at called
  · split at called <;> cases called
    rw [LegalPeri] at legal
    exact ⟨legal, trivial⟩
  · split at called <;> cases called
    rw [LegalPeri] at legal
    exact ⟨legal, trivial⟩
  · cases called

theorem legalTasks_callBoardAdditionAbilities {newEmoId : Nat} {newEmoTyp : Typ}
    {isNewEmoTriple : Bool} (legal : LegalBoard env.emoBases state.board) :
    LegalTasks env.emoBases
      (callBoardAdditionAbilities env newEmoId newEmoTyp isNewEmoTriple state).1 := by
  intro call member
  obtain ⟨⟨abilityEmoId, ability⟩, listed, called⟩ := List.mem_filterMap.mp member
  rw [Option.ite_none_left_eq_some] at called
  obtain ⟨emo, present, inside⟩ := List.mem_flatMap.mp listed
  obtain ⟨peri, lists, same⟩ := List.mem_map.mp inside
  cases same
  exact legalTask_additionCall ((legal emo present).peri lists) called.2

theorem sound_callPreAbilities {rng : env.sampler.Rng} {abilities : List (Nat × Pre)}
    (legal : LegalBoard env.emoBases state.board)
    (acts : ∀ entry ∈ abilities, LegalPre env.emoBases entry.2) :
    Sound (callPreAbilities env rng abilities state) (LegalCalls env) := by
  match abilities with
  | [] => exact ⟨List.forall_mem_nil _, legal⟩
  | (actionEmoId, .normal action) :: rest =>
      rw [List.forall_mem_cons, LegalPre] at acts
      refine ⟨fun task member => ?_, legal⟩
      rcases List.mem_pair.mp member with rfl | rfl
      · exact ⟨acts.1, trivial⟩
      · exact acts.2
  | (actionEmoId, .random (.increaseStatsOfMenagerie typCount attack health)) :: rest =>
      rw [List.forall_mem_cons] at acts
      exact (sound_increaseStatsOfMenagerie legal).bind fun _ holds =>
        ⟨legalTasks_singleton.mpr acts.2, holds⟩

/-- A legal task makes legal calls, leaves a legal board and fails for no fault
of the data. -/
theorem sound_perform {task : Task env.sampler} (bases : LegalBases env.emoBases)
    (legal : LegalBoard env.emoBases state.board) (acts : LegalTask env.emoBases task) :
    Sound (perform env task state) (LegalCalls env) := by
  cases task with
  | callPreAbilities rng abilities => exact sound_callPreAbilities legal acts
  | callAbilityActionAsOneself action actionEmoPointer =>
      exact (sound_getEmo legal acts.2).bind fun _ _ =>
        ⟨legalTasks_singleton.mpr ⟨acts.1, acts.2⟩, legal⟩
  | callAbilityActionAsAlly action oneselfEmoId allyEmoPointer =>
      exact sound_callAbilityActionAsAlly legal acts.1 acts.2
  | callAbilityAction action actionEmoPointer isTripleAction =>
      exact sound_callAbilityAction bases legal acts.1 acts.2
  | callBoardAdditionAbilities newEmoId newEmoTyp isNewEmoTriple =>
      exact ⟨legalTasks_callBoardAdditionAbilities legal, legal⟩
  | processTriple newEmoId => exact sound_processTriple bases legal
  | setEmoReturn gottenCoin => exact ⟨List.forall_mem_nil _, legal⟩
  | processTripleReturn gottenCoin => exact ⟨List.forall_mem_nil _, legal⟩

/-! ## Runs -/

structure LegalConfig (env : Env) (config : Config (Task env.sampler) ShopState) : Prop where
  tasks : LegalTasks env.emoBases config.stack
  board : LegalBoard env.emoBases config.state.board

theorem LegalConfig.step (bases : LegalBases env.emoBases) {task : Task env.sampler}
    {rest calls : List (Task env.sampler)} {before after : ShopState}
    (legal : LegalConfig env ⟨task :: rest, before⟩)
    (performed : perform env task before = .ok (calls, after)) :
    LegalConfig env ⟨calls ++ rest, after⟩ := by
  obtain ⟨acts, waiting⟩ := List.forall_mem_cons.mp legal.tasks
  obtain ⟨called, board⟩ := (sound_perform bases legal.board acts).result performed
  exact ⟨legalTasks_append.mpr ⟨called, waiting⟩, board⟩

theorem LegalConfig.reaches (bases : LegalBases env.emoBases)
    {start last : Config (Task env.sampler) ShopState} (legal : LegalConfig env start)
    (reached : Reaches (perform env) start last) : LegalConfig env last :=
  Reaches.invariant (fun holds performed => holds.step bases performed) reached legal

/-! ## Actions -/

theorem legalConfig_startShopCalls (seed : Nat) (legal : LegalBoard env.emoBases state.board) :
    LegalConfig env ⟨(startShopCalls env seed state).1, (startShopCalls env seed state).2⟩ := by
  refine ⟨legalTasks_singleton.mpr fun entry listed => ?_, legal⟩
  obtain ⟨emo, present, inside⟩ := List.mem_flatMap.mp listed
  obtain ⟨pre, lists, rfl⟩ := List.mem_map.mp inside
  obtain ⟨ability, member, same⟩ := List.mem_filterMap.mp lists
  have known := (legal emo present).abilities ability member
  unfold preAbility? at same
  split at same
  · cases same
    simpa only [LegalAbility, LegalShop] using known
  · cases same

theorem sound_sellEmoCalls {emoIndex : Nat} (legal : LegalBoard env.emoBases state.board) :
    Sound (sellEmoCalls env emoIndex state) (LegalCalls env) := by
  refine (sound_ensure (by trivial)).bind fun _ _ => ?_
  refine (sound_okOr (by trivial)).bind fun sold found => ⟨fun task called => ?_, ?_⟩
  · obtain ⟨action, sells, rfl⟩ := List.mem_map.mp called
    obtain ⟨peri, listed, sells⟩ := List.mem_filterMap.mp sells
    have known := legal sold (List.mem_of_getElem? found)
    exact ⟨legalAction_of_sellAction (known.peri listed) sells, known⟩
  · simp only [ShopState.addLog_board]
    exact fun emo member => legal emo (List.mem_of_mem_eraseIdx member)

end EmojiBattler.Mtc.Shop
