import EmojiBattler.Mtc.Setup
import EmojiBattler.Battle.Soundness
import EmojiBattler.Shop.Legality

/-! # Accepted bases

`check_and_build_emo_bases` looks up the listed ids and nothing else.  What the
abilities of the bases need beyond that is their legality. -/

namespace EmojiBattler.Mtc

open EmojiBattler.Emo CallMachine

theorem checkAndBuildEmoBases_resolves {basesOpt : Option Bases} {newBases bases : Bases}
    {fixedBaseIds builtBaseIds : List Nat} {forceBasesUpdate : Bool}
    (accepted : checkAndBuildEmoBases basesOpt newBases fixedBaseIds builtBaseIds
      forceBasesUpdate = .ok bases) :
    ∀ id ∈ fixedBaseIds ++ builtBaseIds, Resolves bases id := by
  simp only [checkAndBuildEmoBases, Result.bind_eq_ok_iff, ensure_eq_ok_iff,
    Result.pure_eq_ok_iff] at accepted
  obtain ⟨_, fixed, _, built, rfl⟩ := accepted
  intro id member
  apply Option.isSome_iff_exists.mp
  rcases List.mem_append.mp member with listed | listed
  · exact fixed id listed
  · exact built id listed

theorem NotDataError.ne {error : MtcError} (excused : NotDataError error) :
    error ≠ .divisionByZero ∧ ∀ id, error ≠ .emoBaseNotFound id := by
  constructor
  · rintro rfl
    exact excused
  · rintro id rfl
    exact excused

theorem Shop.LegalBases.battle {bases : Bases} (legal : Shop.LegalBases bases) :
    Battle.LegalBases bases := by
  intro id base found battle listed
  have ability := (legal id base found).abilities _ listed
  rwa [Shop.LegalAbility] at ability

/-- The calls of the shop actions that run abilities. -/
inductive Shop.ActionCalls (env : Env) (state : Shop.ShopState) : Shop.Calls env → Prop where
  | start (seed : Nat) : ActionCalls env state (Shop.startShopCalls env seed state)
  | sell {emoIndex : Nat} {calls : Shop.Calls env}
      (sold : Shop.sellEmoCalls env emoIndex state = .ok calls) : ActionCalls env state calls
  | add {mtcEmoIds : List Nat} {baseId emoIndex : Nat} {isTriple : Bool}
      {calls : Shop.Calls env}
      (added : Shop.addEmoCalls env mtcEmoIds baseId isTriple emoIndex state = .ok calls) :
      ActionCalls env state calls

theorem Shop.ActionCalls.legal {env : Env} {state : Shop.ShopState} {calls : Shop.Calls env}
    (action : ActionCalls env state calls) (bases : LegalBases env.emoBases)
    (legal : LegalBoard env.emoBases state.board) : LegalConfig env ⟨calls.1, calls.2⟩ := by
  cases action with
  | start seed => exact legalConfig_startShopCalls seed legal
  | sell sold =>
      obtain ⟨tasks, board⟩ := (sound_sellEmoCalls legal).result sold
      exact ⟨tasks, board⟩
  | @add mtcEmoIds baseId emoIndex isTriple calls added =>
      obtain ⟨base, found, _⟩ := addEmoCalls_addition added
      obtain ⟨tasks, board⟩ := (sound_addEmoCalls bases legal ⟨base, found⟩).result added
      exact ⟨tasks, board⟩

/-- Where the accepted bases are legal, no ability divides by zero or names an
unknown base, neither in the shop nor in a battle. -/
theorem accepted_abilities_execute {env : Env} {basesOpt : Option Bases} {newBases : Bases}
    {fixedBaseIds builtBaseIds : List Nat} {forceBasesUpdate : Bool}
    (accepted : checkAndBuildEmoBases basesOpt newBases fixedBaseIds builtBaseIds
      forceBasesUpdate = .ok env.emoBases)
    (legal : Shop.LegalBases env.emoBases) :
    (∀ id ∈ fixedBaseIds ++ builtBaseIds, Resolves env.emoBases id) ∧
    (∀ (state : Shop.ShopState) (calls : Shop.Calls env),
      Shop.LegalBoard env.emoBases state.board → Shop.ActionCalls env state calls →
      ∀ task middle error, PerformedIn (Shop.perform env) ⟨calls.1, calls.2⟩ task middle →
        Shop.perform env task middle = .error error →
        error ≠ .divisionByZero ∧ ∀ id, error ≠ .emoBaseNotFound id) ∧
    ∀ (state : Battle.St env) (calls : List Battle.Task),
      Battle.LegalBoards env.emoBases state.boards →
      ((∃ first, calls = Battle.callPreAbilities first) ∨
        ∃ player, calls = [.attack player]) →
      ∀ task middle error, PerformedIn (Battle.perform env) ⟨calls, state⟩ task middle →
        Battle.perform env task middle = .error error →
        error ≠ .divisionByZero ∧ ∀ id, error ≠ .emoBaseNotFound id := by
  refine ⟨checkAndBuildEmoBases_resolves accepted, ?_, ?_⟩
  · rintro state calls board action task middle error ⟨rest, reached⟩ failed
    have holds := (action.legal legal board).reaches legal reached
    have excused := (Shop.sound_perform legal holds.board
      (holds.tasks task List.mem_cons_self)).error failed
    exact excused.ne
  · intro state calls boards step task middle error performed failed
    exact (Battle.battleStep_error legal.battle boards step performed failed).ne

def dividingBase : Base :=
  ⟨0, .food, 1, 1, 1, [.shop (.pre (.normal (.getCoinByEmoCountDiv {} 0)))]⟩

def settingBase : Base :=
  ⟨1, .food, 1, 1, 1, [.battle (.general (.asOneself .pre (.setEmo .ally 9)))]⟩

/-- Bases that are accepted although one divides by zero and one sets an
unknown base. -/
def uncheckedEnv : Env where
  emoBases id := if id = 0 then some dividingBase else if id = 1 then some settingBase else none
  sampler := .first

theorem accepted_abilities_fail :
    let shop : Shop.ShopState :=
      { board := [.newWithBase 0 [1] dividingBase false], logs := [], gottenCoin := 0,
        generatedIds := 1 }
    let battle : Battle.St uncheckedEnv :=
      { boards := { board0 := [.newWithBase 0 settingBase false],
                    board1 := [.newWithBase 1 settingBase false] }
        logs := [], rng := (), generatedIds := 2 }
    checkAndBuildEmoBases none uncheckedEnv.emoBases [0] [1] true = .ok uncheckedEnv.emoBases ∧
      runError (Shop.perform uncheckedEnv) 5 (Shop.startShopCalls uncheckedEnv 0 shop).1 shop =
        some .divisionByZero ∧
      runError (Battle.perform uncheckedEnv) 5 (Battle.callPreAbilities .zero) battle =
        some (.emoBaseNotFound 9) := by
  refine ⟨rfl, ?_, ?_⟩ <;> decide +kernel

/-- An ability that adds another one, which divides and sets an emo. -/
def nestingBase : Base :=
  ⟨0, .food, 1, 1, 1, [.shop (.peri (.asOneself .set (.addAbility .oneself
    (.battle (.general (.asOneself .pre (.setEmosByAttackDiv .ally 0 2)))))))]⟩

def nestingEnv : Env where
  emoBases id := if id = 0 then some nestingBase else none
  sampler := .first

theorem legalBases_nestingEnv : Shop.LegalBases nestingEnv.emoBases := by
  intro id base found
  simp only [nestingEnv] at found
  split at found <;> cases found
  have resolves : Resolves nestingEnv.emoBases 0 := ⟨nestingBase, rfl⟩
  refine ⟨resolves, fun ability listed => ?_⟩
  rw [List.mem_singleton.mp listed]
  simp only [Shop.LegalAbility, Shop.LegalShop, Shop.LegalPeri, Shop.LegalAction,
    Battle.LegalBattle, Battle.LegalGeneral, Battle.LegalNormalAction]
  exact ⟨resolves, by decide⟩

/-- An emo that is set next to another one, and the battle between the two. -/
theorem accepted_abilities_execute_nestingEnv :
    let shop : Shop.ShopState :=
      { board := [.newWithBase 0 [1] nestingBase false], logs := [], gottenCoin := 0,
        generatedIds := 1 }
    let battle : Battle.St nestingEnv :=
      { boards := { board0 := [.newWithBase 0 nestingBase false],
                    board1 := [.newWithBase 1 nestingBase false] }
        logs := [], rng := (), generatedIds := 2 }
    (∀ calls, Shop.addEmoCalls nestingEnv [2] 0 false 1 shop = .ok calls →
      ∀ task middle error,
        PerformedIn (Shop.perform nestingEnv) ⟨calls.1, calls.2⟩ task middle →
          Shop.perform nestingEnv task middle = .error error →
          error ≠ .divisionByZero ∧ ∀ id, error ≠ .emoBaseNotFound id) ∧
    ∀ task middle error,
      PerformedIn (Battle.perform nestingEnv) ⟨[.attack .zero], battle⟩ task middle →
        Battle.perform nestingEnv task middle = .error error →
        error ≠ .divisionByZero ∧ ∀ id, error ≠ .emoBaseNotFound id := by
  intro shop battle
  have accepted : checkAndBuildEmoBases none nestingEnv.emoBases [0] [] true =
      .ok nestingEnv.emoBases := rfl
  obtain ⟨_, inShop, inBattle⟩ := accepted_abilities_execute accepted legalBases_nestingEnv
  constructor
  · intro calls added
    have board : Shop.LegalBoard nestingEnv.emoBases shop.board := by
      intro emo member
      rw [List.mem_singleton.mp member]
      exact (legalBases_nestingEnv 0 nestingBase rfl).newWithBase 0 [1] false
    exact inShop shop calls board (.add added)
  · have boards : Battle.LegalBoards nestingEnv.emoBases battle.boards := by
      intro playerIndex emo member
      have same : emo.attributes.abilities = nestingBase.abilities := by
        cases playerIndex <;> rw [List.mem_singleton.mp member] <;> rfl
      rw [same]
      exact legalBases_nestingEnv.battle 0 nestingBase rfl
    exact inBattle battle _ boards (.inr ⟨.zero, rfl⟩)

end EmojiBattler.Mtc
