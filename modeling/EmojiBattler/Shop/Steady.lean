import EmojiBattler.Shop.Identity
import EmojiBattler.Shop.Arrivals

/-! # Shop actions that cannot fail

Where the abilities in play are steady and an account covers the stats, every
waiting task keeps its emos, and the shop actions return. -/

namespace EmojiBattler.Mtc.Shop

open EmojiBattler.Emo Sampling CallMachine
open EmojiBattler.Emo.Ability.Shop (NormalAction)

/-! ## Runs -/

/-- More emos are never added in one action: each new triple leaves room for at
most a whole board. -/
def maxAdditions : Nat := (boardEmoMaxCount + 1) * boardEmoMaxCount + boardEmoMaxCount

def additionRoom (board : ShopBoard) : Nat :=
  (boardEmoMaxCount + 1) * (boardEmoMaxCount - countTriples board) +
    (boardEmoMaxCount - board.length)

theorem additionRoom_le (board : ShopBoard) : additionRoom board ≤ maxAdditions :=
  Nat.add_le_add (Nat.mul_le_mul_left _ (Nat.sub_le ..)) (Nat.sub_le ..)

theorem Grown.additionRoom_lt {before after : ShopBoard} (grown : Grown before after)
    (small : after.length ≤ boardEmoMaxCount) : additionRoom after < additionRoom before := by
  have triples := countTriples_le after
  unfold Grown at grown
  simp only [additionRoom, boardEmoMaxCount] at small ⊢
  omega

section Runs

variable {env : Env} {start : ShopBoard} {roots : NormalAction → Prop} {account : Account}
variable {expected first : Nat} {task : Task env.sampler} {before after : ShopState}
variable {calls rest : List (Task env.sampler)}

/-- Every new emo takes an id and some of the room. -/
theorem perform_room (small : before.board.length ≤ boardEmoMaxCount)
    (performed : perform env task before = .ok (calls, after)) :
    after.generatedIds + additionRoom after.board ≤
      before.generatedIds + additionRoom before.board := by
  cases perform_effect performed with
  | update _ update _ =>
      rw [update.generatedIds, additionRoom, update.size_eq.1, update.size_eq.2]
      exact Nat.le_refl _
  | settled _ _ _ _ _ _ _ same =>
      rw [same]
  | addition base baseId isTriple _ _ addition generatedIds =>
      have := (addition.grown small).additionRoom_lt (addition.sizes small).2.1
      omega
  | merge _ target _ _ _ merge =>
      have := (merge.grown small).1.additionRoom_lt (merge.grown small).2
      have := merge.generatedIds
      omega

/-- Ids for all emos that can still be added. -/
structure Supplied (first : Nat) (state : ShopState) : Prop where
  small : state.board.length ≤ boardEmoMaxCount
  fresh : Fresh first state
  start : first ≤ state.generatedIds
  room : state.generatedIds + additionRoom state.board ≤ first + idCount

theorem Supplied.step (supplied : Supplied first before)
    (performed : perform env task before = .ok (calls, after)) : Supplied first after := by
  have effect := perform_effect performed
  have room := Nat.le_trans (perform_room supplied.small performed) supplied.room
  have start := Nat.le_trans supplied.start effect.generatedIds_le
  refine ⟨?_, supplied.fresh.step supplied.start (by omega) effect, start, room⟩
  cases perform_descent supplied.small performed with
  | adds _ small => exact small
  | calls _ update _ =>
      rw [update.size_eq.1]
      exact supplied.small

/-- All waiting tasks find their emos and can be paid. -/
structure SteadyConfig (env : Env) (start : ShopBoard) (roots : NormalAction → Prop)
    (account : Account) (first : Nat) (config : Config (Task env.sampler) ShopState) : Prop where
  supplied : Supplied first config.state
  prepared : Prepared env.emoBases start roots config.state.label config.state.line config.stack
  known : ∀ task ∈ config.stack, task.Known env.emoBases start roots config.state.label
  fielded : ∀ emo ∈ config.state.board, Fielded env.emoBases start roots account emo
  fits : boardEmoMaxCount * costs account config.state.label config.stack ≤ u16Max
  low : ∀ emo ∈ config.state.board, InPlay env.emoBases start roots (.acts (.setEmo emo.baseId)) →
    emo.attributes.isTriple = false → ∀ base, env.emoBases emo.baseId = some base →
      Low base (costs account config.state.label config.stack) emo

theorem SteadyConfig.next (covers : Covers env.emoBases start roots account expected)
    (config : SteadyConfig env start roots account first ⟨task :: rest, before⟩)
    (leaves : Leaves env start roots account task before after calls)
    (supplied : Supplied first after) :
    SteadyConfig env start roots account first ⟨calls ++ rest, after⟩ := by
  obtain ⟨finds, waiting⟩ := config.prepared
  obtain ⟨_, knownRest⟩ := List.forall_mem_cons.mp config.known
  obtain ⟨gain, paid, emos⟩ := leaves.emos
  have agree (emoId : Nat) (present : emoId ∈
      (spared (task.Merges env.emoBases start roots before.label) before.line).map Identity.id) :
      before.label emoId = after.label emoId := by
    have ids (state : ShopState) (fresh : Fresh first state) :
        (state.line.map Identity.id).Nodup := by
      rw [ShopBoard.ids_identities]
      exact fresh.distinct
    rw [ShopState.label, ← baseOf_sublist (ids before config.supplied.fresh) spared_sublist present,
      baseOf_sublist (ids after supplied.fresh) (leaves.line.trans spared_sublist) present]
  have sameCosts : costs account after.label rest = costs account before.label rest := by
    rw [costs, costs, List.map_congr_left fun later member =>
      (Task.cost_congr agree (waiting.finds later member)).symm]
  have total : gain + costs account after.label (calls ++ rest) ≤
      costs account before.label (task :: rest) := by
    rw [costs_append, sameCosts, costs_cons]
    omega
  have fits : boardEmoMaxCount * costs account before.label (task :: rest) ≤ u16Max := config.fits
  refine ⟨supplied, leaves.prepared.append (waiting.relabel agree) leaves.line, ?_, ?_, ?_, ?_⟩
  · intro later member
    rcases List.mem_append.mp member with made | old
    · exact leaves.known later made
    · exact (Task.known_congr agree (waiting.finds later old)).mp (knownRest later old)
  · intro emo member
    rcases emos emo member with ⟨old, present, raised⟩ | ⟨fielded, _⟩
    · exact (config.fielded old present).raised covers raised
    · exact fielded
  · change boardEmoMaxCount * costs account after.label (calls ++ rest) ≤ u16Max
    exact Nat.le_trans (Nat.mul_le_mul_left _ (by omega)) fits
  · intro emo member sets notTriple base found
    change Low base (costs account after.label (calls ++ rest)) emo
    rcases emos emo member with ⟨old, present, raised⟩ | ⟨_, atBase⟩
    · rw [raised.baseId] at sets found
      rw [raised.isTriple] at notTriple
      have low : Low base (costs account before.label (task :: rest)) old :=
        config.low old present sets notTriple base found
      have attack := raised.attack
      have health := raised.health
      exact ⟨Nat.le_trans (Nat.mul_le_mul_left _ (by omega)) low.attack,
        Nat.le_trans (Nat.mul_le_mul_left _ (by omega)) low.health⟩
    · obtain ⟨attack, health⟩ := atBase notTriple base found
      exact ⟨Nat.le_trans (Nat.mul_le_mul_left _ (by omega)) fits,
        Nat.le_trans (Nat.mul_le_mul_left _ (by omega)) fits⟩

theorem SteadyConfig.step (steady : Steady env.emoBases start roots)
    (keyed : KeyedBases env.emoBases) (covers : Covers env.emoBases start roots account expected)
    (config : SteadyConfig env start roots account first ⟨task :: rest, before⟩)
    (performed : perform env task before = .ok (calls, after)) :
    SteadyConfig env start roots account first ⟨calls ++ rest, after⟩ := by
  have supplied := config.supplied.step performed
  refine config.next covers (perform_leaves steady keyed covers config.supplied.fresh.distinct
    supplied.fresh.distinct config.fielded config.supplied.small config.prepared.1 ?_ performed)
    supplied
  exact config.known task List.mem_cons_self

/-- A whole board of emos that are low can be merged. -/
theorem sum_fits {values : List Nat} {limit : Nat} (few : values.length ≤ boardEmoMaxCount)
    (each : ∀ value ∈ values, boardEmoMaxCount * value ≤ limit) : values.sum ≤ limit := by
  have bound (value : Nat) (member : value ∈ values) : value ≤ limit / boardEmoMaxCount := by
    rw [Nat.le_div_iff_mul_le (by decide), Nat.mul_comm]
    exact each value member
  refine Nat.le_trans (List.sum_le_card_nsmul values _ bound) ?_
  rw [Nat.nsmul_eq_mul]
  exact Nat.le_trans (Nat.mul_le_mul_right _ few) (Nat.mul_div_le ..)

theorem PointerFinds.holds {state : ShopState} {action : NormalAction} {emoPointer : EmoPointer}
    (finds : PointerFinds state.line action emoPointer) :
    ActionHolds state.board emoPointer action := by
  cases emoPointer with
  | onBoard emoId =>
      rw [PointerFinds, ShopBoard.ids_identities] at finds
      have target (target : Ability.Target) :
          TargetHolds state.board (.onBoard emoId) target := by
        unfold TargetHolds
        split <;> first | exact finds | trivial
      cases action with
      | setEmo baseId => exact fun _ => finds
      | increaseStats | increaseStatsByEmoCount | addAbility => exact target _
      | increaseStatsByGrade => exact ⟨finds, target _⟩
      | increaseStatsOfAdjacentMenagerie => exact finds
      | getCoin | getCoinByEmoCountDiv => trivial
  | removed emo prevEmoIndex =>
      have length : state.line.length = state.board.length := List.length_map _
      rw [PointerFinds, length] at finds
      have left {target : Ability.Target}
          (finds : (∃ typAndTriple, target = .others .left typAndTriple) →
            prevEmoIndex ≤ state.board.length) :
          TargetHolds state.board (.removed emo prevEmoIndex) target := by
        unfold TargetHolds
        split
        · trivial
        · trivial
        · exact finds ⟨_, rfl⟩
        · trivial
      cases action with
      | setEmo baseId => exact fun _ => finds trivial
      | increaseStats | increaseStatsByEmoCount | addAbility => exact left finds
      | increaseStatsByGrade => exact ⟨trivial, left finds⟩
      | increaseStatsOfAdjacentMenagerie => exact finds trivial
      | getCoin | getCoinByEmoCountDiv => trivial

/-- The emos that a merge takes together are low. -/
theorem SteadyConfig.low_sources {target : ShopBoardEmo} {base : Base}
    (config : SteadyConfig env start roots account first ⟨.processTriple target.id :: rest, before⟩)
    (standing : target ∈ before.board) (found : env.emoBases target.baseId = some base) :
    ∀ emo ∈ before.board.filter (isSameBaseNotTriple target.baseId), Low base 0 emo := by
  intro emo source
  have sets : InPlay env.emoBases start roots (.acts (.setEmo (before.label target.id))) :=
    config.known _ List.mem_cons_self
  rw [label_eq config.supplied.fresh.distinct standing] at sets
  obtain ⟨member, same, notTriple⟩ := mem_sources source
  rw [← same] at sets found
  have low := config.low emo member sets notTriple base found
  exact ⟨Nat.le_trans (Nat.mul_le_mul_left _ (Nat.le_add_right _ _)) low.attack,
    Nat.le_trans (Nat.mul_le_mul_left _ (Nat.le_add_right _ _)) low.health⟩

theorem SteadyConfig.holds
    (config : SteadyConfig env start roots account first ⟨task :: rest, before⟩) :
    Holds env task before.board := by
  have finds : task.Finds env.emoBases start roots before.line := config.prepared.1
  cases task with
  | callPreAbilities rng abilities =>
      match abilities with
      | [] => trivial
      | (actionEmoId, .normal action) :: rest => trivial
      | (actionEmoId, .random action) :: rest =>
          have present := finds.1
          rwa [ShopBoard.ids_identities] at present
  | callAbilityActionAsOneself action actionEmoPointer =>
      cases actionEmoPointer with
      | onBoard emoId =>
          rw [Task.Finds, PointerFinds, ShopBoard.ids_identities] at finds
          exact finds
      | removed emo prevEmoIndex => trivial
  | callAbilityActionAsAlly action oneselfEmoId allyEmoPointer =>
      obtain ⟨oneself, allyEmoId, rfl, ally⟩ := finds
      rw [ShopBoard.ids_identities] at oneself ally
      exact ⟨oneself, fun _ => ally⟩
  | callAbilityAction action actionEmoPointer isTripleAction => exact finds.holds
  | callBoardAdditionAbilities newEmoId newEmoTyp isNewEmoTriple => trivial
  | processTriple newEmoId =>
      rw [Task.Finds, ShopBoard.ids_identities] at finds
      refine ⟨finds, fun target newEmoIndex base looked _ found => ?_⟩
      obtain ⟨standing, rfl⟩ := ShopBoard.getEmoAndIndexById_found looked
      have low := config.low_sources (List.mem_of_getElem? standing) found
      have few (value : ShopBoardEmo → Nat) :
          ((before.board.filter (isSameBaseNotTriple target.baseId)).map value).length ≤
            boardEmoMaxCount := by
        rw [List.length_map]
        exact Nat.le_trans (List.length_filter_le _ _) config.supplied.small
      exact ⟨sum_fits (few _) (List.forall_mem_map.mpr fun emo source => (low emo source).attack),
        sum_fits (few _) (List.forall_mem_map.mpr fun emo source => (low emo source).health)⟩
  | setEmoReturn gottenCoin => trivial
  | processTripleReturn gottenCoin => trivial

theorem SteadyConfig.undisturbed {calls : Calls env} (steady : Steady env.emoBases start roots)
    (keyed : KeyedBases env.emoBases) (covers : Covers env.emoBases start roots account expected)
    (config : SteadyConfig env start roots account first ⟨calls.1, calls.2⟩) :
    Undisturbed env calls := by
  intro task middle performed
  obtain ⟨rest, reached⟩ := performed
  have kept : SteadyConfig env start roots account first ⟨task :: rest, middle⟩ :=
    Reaches.invariant (fun holds performed => holds.step steady keyed covers performed) reached
      config
  exact kept.holds

theorem steadyConfig_start {state : ShopState} {stack : List (Task env.sampler)}
    (supplied : Supplied first state)
    (covers : Covers env.emoBases state.board roots account (costs account state.label stack))
    (prepared : Prepared env.emoBases state.board roots state.label state.line stack)
    (known : ∀ task ∈ stack, task.Known env.emoBases state.board roots state.label) :
    SteadyConfig env state.board roots account first ⟨stack, state⟩ where
  supplied := supplied
  prepared := prepared
  known := known
  fielded emo member := ⟨fun _ listed => .listed member listed, covers.emos emo member⟩
  fits := covers.fits
  low := covers.low

theorem Supplied.addition {mtcEmoIds : List Nat} {base : Base} {isTriple : Bool}
    (supplied : Supplied first before)
    (addition : Addition (.newWithBase before.generatedIds mtcEmoIds base isTriple) before.board
      after calls)
    (generatedIds : after.generatedIds = before.generatedIds + 1) : Supplied first after := by
  have smaller :=
    (addition.grown supplied.small).additionRoom_lt (addition.sizes supplied.small).2.1
  have room := supplied.room
  have start := supplied.start
  refine ⟨(addition.sizes supplied.small).2.1, ?_, by omega, by omega⟩
  obtain ⟨_, ⟨index, bound, inserted⟩, _⟩ := addition
  have inserting := supplied.fresh.insert [] 0 (by omega) start (.refl _) bound inserted rfl
  exact ⟨inserting.distinct, by
    rw [generatedIds]
    exact inserting.issued⟩

end Runs

/-! ## Actions -/

/-- What `start_shop` begins with. -/
def PreRoots (board : ShopBoard) (action : NormalAction) : Prop :=
  ∃ emoId, (emoId, .normal action) ∈ board.getBoardPreAbilities

/-- What `sell_emo` begins with. -/
def sellActions (sold : ShopBoardEmo) : List NormalAction :=
  sold.getPeriAbilities.filterMap sellAction?

theorem sellEmoCalls_stack {env : Env} {emoIndex : Nat} {sold : ShopBoardEmo}
    {state started : ShopState} {stack : List (Task env.sampler)}
    (found : state.board[emoIndex]? = some sold)
    (called : sellEmoCalls env emoIndex state = .ok (stack, started)) :
    stack = (sellActions sold).map fun action =>
      .callAbilityActionAsOneself action (.removed sold emoIndex) := by
  simp only [sellEmoCalls, Result.bind_eq_ok_iff, okOr_eq_ok_iff, found, Option.some.injEq,
    Result.pure_eq_ok_iff, Prod.mk.injEq] at called
  obtain ⟨_, _, _, rfl, rfl, _⟩ := called
  rfl

section Actions

variable {env : Env} {account : Account} {first : Nat} {state : ShopState}
variable (keyed : KeyedBases env.emoBases) (small : state.board.length ≤ boardEmoMaxCount)
variable (fresh : Fresh first state) (since : first ≤ state.generatedIds)
variable (room : state.generatedIds + maxAdditions ≤ first + idCount)

include small fresh since room in
/-- A part of the board. -/
theorem supplied_of_part {started : ShopState} (part : started.board.Sublist state.board)
    (generatedIds : started.generatedIds = state.generatedIds) : Supplied first started := by
  refine ⟨Nat.le_trans part.length_le small, ⟨fresh.distinct.sublist (part.map _), ?_⟩,
    generatedIds ▸ since, ?_⟩
  · rw [generatedIds]
    exact fun emo member => fresh.issued emo (part.subset member)
  · rw [generatedIds]
    exact Nat.le_trans (Nat.add_le_add_left (additionRoom_le _) _) room

include keyed small fresh since room in
theorem startShop_undisturbed (seed : Nat)
    (steady : Steady env.emoBases state.board (PreRoots state.board))
    (kept : PreKept env.emoBases state.board (PreRoots state.board) state.board.identities
      state.board.getBoardPreAbilities)
    (covers : Covers env.emoBases state.board (PreRoots state.board) account
      (state.board.getBoardPreAbilities.map fun entry => account.preCost entry.2).sum) :
    Undisturbed env (startShopCalls env seed state) := by
  have config : SteadyConfig env state.board (PreRoots state.board) account first
      ⟨(startShopCalls env seed state).1, (startShopCalls env seed state).2⟩ := by
    refine @steadyConfig_start _ _ _ _ (startShopCalls env seed state).2 _
      (supplied_of_part small fresh since room (.refl _) rfl) covers ⟨kept, trivial⟩ ?_
    exact List.forall_mem_singleton.mpr fun emoId action member => .root ⟨emoId, member⟩
  exact config.undisturbed steady keyed covers

theorem PlaceKept.prepared {bases : Bases} {board : ShopBoard} {roots : NormalAction → Prop}
    {sold : ShopBoardEmo} {emoIndex : Nat} {line : List Identity} {label : Nat → Nat}
    {actions : List NormalAction} (kept : PlaceKept bases board roots emoIndex line actions) :
    Prepared bases board roots label line (actions.map fun action =>
      @Task.callAbilityActionAsOneself env.sampler action (.removed sold emoIndex)) := by
  induction actions generalizing line with
  | nil => trivial
  | cons action rest ih => exact ⟨kept.1, ih kept.2⟩

include keyed small fresh since room in
theorem sellEmo_undisturbed {emoIndex : Nat} {sold : ShopBoardEmo} {calls : Calls env}
    (found : state.board[emoIndex]? = some sold)
    (steady : Steady env.emoBases (state.board.eraseIdx emoIndex) (· ∈ sellActions sold))
    (kept : PlaceKept env.emoBases (state.board.eraseIdx emoIndex) (· ∈ sellActions sold) emoIndex
      (ShopBoard.identities (state.board.eraseIdx emoIndex)) (sellActions sold))
    (covers : Covers env.emoBases (state.board.eraseIdx emoIndex) (· ∈ sellActions sold) account
      ((sellActions sold).map account.cost).sum)
    (called : sellEmoCalls env emoIndex state = .ok calls) : Undisturbed env calls := by
  obtain ⟨stack, started⟩ := calls
  obtain ⟨board, generatedIds, _⟩ := sellEmoCalls_removal called
  have made := sellEmoCalls_stack found called
  subst made
  have supplied := supplied_of_part small fresh since room
    (board ▸ List.eraseIdx_sublist state.board emoIndex) generatedIds
  rw [← board] at steady kept covers
  have config : SteadyConfig env started.board (· ∈ sellActions sold) account first
      ⟨(sellActions sold).map fun action =>
        .callAbilityActionAsOneself action (.removed sold emoIndex), started⟩ := by
    refine steadyConfig_start supplied ?_ kept.prepared ?_
    · rwa [costs, List.map_map]
    · exact List.forall_mem_map.mpr fun action member => .root member
  exact config.undisturbed steady keyed covers

include keyed small fresh since room in
theorem addEmo_undisturbed {mtcEmoIds : List Nat} {baseId emoIndex : Nat} {isTriple : Bool}
    {calls : Calls env} (bound : emoIndex ≤ state.board.length)
    (steady : Steady env.emoBases state.board (· = .setEmo baseId))
    (covers : Covers env.emoBases state.board (· = .setEmo baseId) account (account.price baseId))
    (called : addEmoCalls env mtcEmoIds baseId isTriple emoIndex state = .ok calls) :
    Undisturbed env calls := by
  obtain ⟨stack, started⟩ := calls
  obtain ⟨base, found, addition, generatedIds⟩ := addEmoCalls_addition called
  have supplied := supplied_of_part small fresh since room (.refl _) rfl
  -- As if an emo that was sold there had set the new one.
  let pointer : EmoPointer := .removed (.newWithBase 0 [] base false) emoIndex
  have sets : InPlay env.emoBases state.board (· = .setEmo baseId) (.acts (.setEmo baseId)) :=
    .root rfl
  have before : SteadyConfig env state.board (· = .setEmo baseId) account first
      ⟨[.callAbilityAction (.setEmo baseId) pointer isTriple], state⟩ := by
    refine steadyConfig_start supplied ?_ ⟨fun _ => ?_, trivial⟩
      (List.forall_mem_singleton.mpr sets)
    · rwa [costs_cons, costs, List.map_nil, List.sum_nil, Nat.add_zero]
    · rwa [ShopState.line, ShopBoard.identities, List.length_map]
  have after := supplied.addition addition generatedIds
  have config := before.next covers (addEmoCalls_leaves steady keyed covers after.fresh.distinct
    sets (List.forall_mem_nil _) called) after
  rw [List.append_nil, List.append_nil] at config
  exact config.undisturbed steady keyed covers

end Actions

/-! ## Nests -/

/-- It sets an egg at the start of a turn, when it is set and when it is sold, and
grows with every other emo that is set. -/
def nestBase : Base where
  id := 0
  typ := .food
  grade := 1
  attack := 1
  health := 1
  abilities := [.shop (.pre (.normal (.setEmo 1))), .shop (.peri (.asOneself .set (.setEmo 1))),
    .shop (.peri (.asOneself .sell (.setEmo 1))),
    .shop (.peri (.asOneself (.allySet ⟨none, none⟩) (.increaseStats .oneself 1 1)))]

def eggBase : Base where
  id := 1
  typ := .food
  grade := 1
  attack := 1
  health := 1
  abilities := []

def nestEnv : Env where
  emoBases id := if id = 0 then some nestBase else if id = 1 then some eggBase else none
  sampler := .first

/-- The next egg completes a triple. -/
def nestState : ShopState where
  board := [.newWithBase 0 [1] nestBase false, .newWithBase 1 [2] eggBase false,
    .newWithBase 2 [3] eggBase false]
  logs := []
  gottenCoin := 0
  generatedIds := 3

/-- A nest grows by at most 2 with each egg. -/
def nestAccount : Account where
  price baseId := if baseId = 0 then 84 else 28
  own baseId := if baseId = 0 then 28 else 0
  answer _ := 2
  grade := 1

theorem nestEnv_cases {id : Nat} {base : Base} (found : nestEnv.emoBases id = some base) :
    (id = 0 ∧ base = nestBase) ∨ (id = 1 ∧ base = eggBase) := by
  simp only [nestEnv] at found
  split at found
  · cases found
    exact .inl ⟨‹_›, rfl⟩
  · split at found <;> cases found
    exact .inr ⟨‹_›, rfl⟩

theorem keyedBases_nestEnv : KeyedBases nestEnv.emoBases := by
  intro id base found
  rcases nestEnv_cases found with ⟨rfl, rfl⟩ | ⟨rfl, rfl⟩ <;> rfl

section Nests

variable {board : ShopBoard} {roots : NormalAction → Prop}
variable (part : board.Sublist nestState.board)
variable (eggs : ∀ action, roots action → action = .setEmo 0 ∨ action = .setEmo 1)

include part in
theorem nestState_cases {emo : ShopBoardEmo} (member : emo ∈ board) :
    ∃ generatedIds mtcEmoIds base, (base = nestBase ∨ base = eggBase) ∧
      emo = .newWithBase generatedIds mtcEmoIds base false := by
  have present := part.subset member
  simp only [nestState, List.mem_cons, List.not_mem_nil, or_false] at present
  rcases present with rfl | rfl | rfl
  · exact ⟨_, _, _, .inl rfl, rfl⟩
  · exact ⟨_, _, _, .inr rfl, rfl⟩
  · exact ⟨_, _, _, .inr rfl, rfl⟩

theorem mem_nestAbilities {ability : Ability} (listed : ability ∈ nestBase.abilities) :
    ability = .shop (.pre (.normal (.setEmo 1))) ∨
      ability = .shop (.peri (.asOneself .set (.setEmo 1))) ∨
      ability = .shop (.peri (.asOneself .sell (.setEmo 1))) ∨
      ability =
        .shop (.peri (.asOneself (.allySet ⟨none, none⟩) (.increaseStats .oneself 1 1))) := by
  simpa only [nestBase, List.mem_cons, List.not_mem_nil, or_false] using listed

include part eggs in
theorem nest_inPlay {happening : Happening}
    (inPlay : InPlay nestEnv.emoBases board roots happening) :
    match happening with
    | .acts action =>
        action = .setEmo 0 ∨ action = .setEmo 1 ∨ action = .increaseStats .oneself 1 1
    | .owns baseId _ ability => baseId = 0 ∧ ability ∈ nestBase.abilities := by
  induction inPlay with
  | root starts => exact (eggs _ starts).imp_right .inl
  | listed member listed =>
      obtain ⟨_, _, _, rfl | rfl, rfl⟩ := nestState_cases part member
      · exact ⟨rfl, listed⟩
      · cases listed
  | born sets found listed ih =>
      rcases nestEnv_cases found with ⟨rfl, rfl⟩ | ⟨rfl, rfl⟩
      · exact ⟨rfl, listed⟩
      · cases listed
  | merged sets owns _ ih => exact ih
  | given adds ih => rcases ih with same | same | same <;> cases same
  | response sets found owns responds _ ih =>
      rcases mem_nestAbilities ih.2 with rfl | rfl | rfl | rfl <;> cases responds
      · exact .inr (.inl rfl)
      · exact .inr (.inr rfl)

include part eggs in
theorem nest_sets {baseId next : Nat} (sets : Sets nestEnv.emoBases board roots baseId next) :
    baseId = 0 ∧ next = 1 := by
  obtain ⟨base, owner, isTriple, ability, found, owns, responds⟩ := sets
  obtain ⟨rfl, listed⟩ := nest_inPlay part eggs owns
  rcases mem_nestAbilities listed with rfl | rfl | rfl | rfl <;> cases responds
  rename_i own
  rcases nestEnv_cases found with ⟨rfl, rfl⟩ | ⟨rfl, rfl⟩
  · exact ⟨rfl, rfl⟩
  · cases own

include part eggs in
theorem nest_leads {baseId next : Nat}
    (leads : Relation.TransGen (Sets nestEnv.emoBases board roots) baseId next) :
    baseId = 0 ∧ next = 1 := by
  induction leads with
  | single sets => exact nest_sets part eggs sets
  | tail _ sets ih =>
      obtain ⟨_, rfl⟩ := ih
      cases (nest_sets part eggs sets).1

include part eggs in
theorem nest_steady : Steady nestEnv.emoBases board roots where
  newEmo baseId _ leads := by
    obtain ⟨rfl, same⟩ := nest_leads part eggs leads
    cases same
  answers baseId base merged ability _ found merges owns _ := by
    -- Only the arrival of a nest sets another emo.
    obtain ⟨_, rfl⟩ := nest_leads part eggs (merges.leads keyedBases_nestEnv found)
    cases (nest_inPlay part eggs owns).1

theorem nest_accounted {baseId : Nat} {base : Base} {isTriple : Bool}
    (found : nestEnv.emoBases baseId = some base) :
    Accounted nestEnv.emoBases board roots nestAccount baseId isTriple base.abilities where
  answers otherId other _ _ := by
    rcases nestEnv_cases found with ⟨rfl, rfl⟩ | ⟨rfl, rfl⟩
    · exact Nat.le_refl 2
    · exact Nat.zero_le 2
  own _ := by
    rcases nestEnv_cases found with ⟨rfl, rfl⟩ | ⟨rfl, rfl⟩
    · exact Nat.le_refl 28
    · exact Nat.le_refl 0
  extras _ _ other again ability listed isExtra := by
    cases found.symm.trans again
    exact absurd listed isExtra

include part eggs in
theorem nest_covers {expected : Nat} (few : expected ≤ 84) :
    Covers nestEnv.emoBases board roots nestAccount expected where
  grades id base found := by
    rcases nestEnv_cases found with ⟨_, rfl⟩ | ⟨_, rfl⟩ <;> exact Nat.le_refl 1
  prices baseId sets := by
    rcases nest_inPlay part eggs sets with same | same | same <;> cases same
    · exact Nat.le_refl 84
    · exact Nat.le_refl 28
  fits := Nat.le_trans (Nat.mul_le_mul_left _ few) (by decide)
  emos emo member := by
    obtain ⟨_, _, _, rfl | rfl, rfl⟩ := nestState_cases part member
    · exact nest_accounted (show nestEnv.emoBases 0 = some nestBase from rfl)
    · exact nest_accounted (show nestEnv.emoBases 1 = some eggBase from rfl)
  newEmos baseId base _ found := nest_accounted found
  given target ability adds := by
    rcases nest_inPlay part eggs adds with same | same | same <;> cases same
  low emo member _ _ base found := by
    have bound : boardEmoMaxCount * (0 + expected) ≤ u16Max := by
      rw [Nat.zero_add]
      exact Nat.le_trans (Nat.mul_le_mul_left _ few) (by decide)
    obtain ⟨_, _, _, rfl | rfl, rfl⟩ := nestState_cases part member
    · cases found
      exact ⟨bound, bound⟩
    · cases found
      exact ⟨bound, bound⟩

end Nests

theorem legalBases_nestEnv : LegalBases nestEnv.emoBases := by
  intro id base found
  rcases nestEnv_cases found with ⟨rfl, rfl⟩ | ⟨rfl, rfl⟩
  · refine ⟨⟨nestBase, rfl⟩, fun ability listed => ?_⟩
    rcases mem_nestAbilities listed with rfl | rfl | rfl | rfl
    all_goals
      simp only [LegalAbility, LegalShop, LegalPre, LegalPeri, LegalAction]
    all_goals
      exact ⟨eggBase, rfl⟩
  · exact ⟨⟨eggBase, rfl⟩, List.forall_mem_nil _⟩

theorem legalBoard_nestState : LegalBoard nestEnv.emoBases nestState.board := by
  intro emo member
  obtain ⟨_, _, _, rfl | rfl, rfl⟩ := nestState_cases (.refl _) member
  · exact (legalBases_nestEnv 0 nestBase rfl).newWithBase _ _ _
  · exact (legalBases_nestEnv 1 eggBase rfl).newWithBase _ _ _

theorem fresh_nestState : Fresh 0 nestState :=
  @fresh_of_ids _ _ 3 (by decide) rfl (Nat.le_refl _)

end EmojiBattler.Mtc.Shop
