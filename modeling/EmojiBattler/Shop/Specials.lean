import EmojiBattler.Shop.WellFormed

/-! # Special battle abilities

Adding a special ability checks that the emo does not have it.  Merging emos
does not compare what their sources bring along. -/

namespace EmojiBattler.Mtc.Shop

open EmojiBattler.Emo Sampling CallMachine

variable {env : Env}

/-- No special battle ability is listed twice. -/
def SpecialsOnce (abilities : List Ability) : Prop :=
  ∀ special, abilities.count (.battle (.special special)) ≤ 1

/-- `SpecialsOnce` of every emo. -/
def BoardSpecialsOnce (board : ShopBoard) : Prop :=
  ∀ emo ∈ board, SpecialsOnce emo.attributes.abilities

def BasesSpecialsOnce (emoBases : Bases) : Prop :=
  ∀ id base, emoBases id = some base → SpecialsOnce base.abilities

/-- How many of the emos have the special ability. -/
def carriersOf (special : Ability.Battle.Special) (sources : List ShopBoardEmo) : Nat :=
  sources.countP fun emo => .battle (.special special) ∈ emo.attributes.abilities

/-! ## Modifications -/

/-- `add_ability` adds a special ability only once. -/
theorem SpecialsOnce.append {abilities : List Ability} {ability : Ability}
    (once : SpecialsOnce abilities)
    (isNew : isSpecialBattleAbility ability → ability ∉ abilities) :
    SpecialsOnce (abilities ++ [ability]) := by
  intro special
  rw [List.count_append, List.count_singleton]
  have before := once special
  split
  · rename_i same
    rw [beq_iff_eq] at same
    subst same
    rw [List.count_eq_zero_of_not_mem (isNew rfl)]
  · exact before

/-- A special ability is gone once it is removed. -/
theorem SpecialsOnce.not_mem_eraseIdx {abilities : List Ability} {index : Nat}
    {special : Ability.Battle.Special} (once : SpecialsOnce abilities)
    (listed : abilities[index]? = some (.battle (.special special))) :
    .battle (.special special) ∉ abilities.eraseIdx index := by
  obtain ⟨bound, here⟩ := List.getElem?_eq_some_iff.mp listed
  have counted := (List.getElem_cons_eraseIdx_perm bound).count_eq (.battle (.special special))
  have atMost := once special
  rw [here, List.count_cons_self] at counted
  exact List.count_eq_zero.mp (by omega)

theorem SpecialsOnce.changed {before after : ShopBoardEmo} (changed : Changed before after)
    (once : SpecialsOnce before.attributes.abilities) :
    SpecialsOnce after.attributes.abilities := by
  induction changed with
  | refl => exact once
  | tail _ modified ih =>
      cases modified with
      | stats attack health => exact ih
      | ability ability isNew => exact ih.append isNew

/-! ## Merges -/

/-- The copies of a special ability that the sources bring along. -/
theorem count_flatMap_sources {special : Ability.Battle.Special} {baseAbilities : List Ability}
    {sources : List ShopBoardEmo} (once : BoardSpecialsOnce sources)
    (additional : .battle (.special special) ∉ baseAbilities) :
    (sources.flatMap fun emo => emo.attributes.abilities.filter
      fun ability => ability ∉ baseAbilities).count (.battle (.special special)) =
    carriersOf special sources := by
  induction sources with
  | nil => rfl
  | cons emo rest ih =>
      rw [BoardSpecialsOnce, List.forall_mem_cons] at once
      rw [List.flatMap_cons, List.count_append, ih once.2,
        List.count_filter (by simpa using additional), carriersOf, carriersOf, List.countP_cons,
        Nat.add_comm]
      congr 1
      have here := once.1 special
      split
      · rename_i carried
        have := List.count_pos_iff.mpr (of_decide_eq_true carried)
        omega
      · rename_i missing
        exact List.count_eq_zero_of_not_mem fun carried => missing (decide_eq_true carried)

/-- A triple has each special ability once exactly when no two of its sources
bring the same one along. -/
theorem buildTripleAbilities_specialsOnce_iff {baseAbilities : List Ability}
    {sources : List ShopBoardEmo} (base : SpecialsOnce baseAbilities)
    (once : BoardSpecialsOnce sources) :
    SpecialsOnce (buildTripleAbilities baseAbilities sources) ↔
      ∀ special, .battle (.special special) ∉ baseAbilities → carriersOf special sources ≤ 1 := by
  constructor
  · intro triple special additional
    have counted := triple special
    rw [buildTripleAbilities, List.count_append, count_flatMap_sources once additional] at counted
    omega
  · intro few special
    rw [buildTripleAbilities, List.count_append]
    by_cases own : .battle (.special special) ∈ baseAbilities
    · rw [List.count_eq_zero_of_not_mem (l := List.flatMap _ _)]
      · exact base special
      · intro member
        obtain ⟨_, _, filtered⟩ := List.mem_flatMap.mp member
        exact of_decide_eq_true (List.mem_filter.mp filtered).2 own
    · rw [List.count_eq_zero_of_not_mem own, count_flatMap_sources once own, Nat.zero_add]
      exact few special own

/-- If the task merges emos, no two of them bring the same special ability
along. -/
def MergesSpecialsOnce (env : Env) (task : Task env.sampler) (state : ShopState) : Prop :=
  ∀ newEmoId target base special, task = .processTriple newEmoId →
    target ∈ state.board → target.id = newEmoId → env.emoBases target.baseId = some base →
    3 ≤ (state.board.filter (isSameBaseNotTriple target.baseId)).length →
    .battle (.special special) ∉ base.abilities →
    carriersOf special (state.board.filter (isSameBaseNotTriple target.baseId)) ≤ 1

/-! ## Runs -/

theorem BoardSpecialsOnce.insertIdx {board : ShopBoard} {index : Nat} {emo : ShopBoardEmo}
    (once : BoardSpecialsOnce board) (new : SpecialsOnce emo.attributes.abilities) :
    BoardSpecialsOnce (board.insertIdx index emo) := by
  intro other member
  rcases List.eq_or_mem_of_mem_insertIdx member with rfl | old
  · exact new
  · exact once other old

theorem Task.processTriple_of_pending {sampler : Sampler} {task : Task sampler} {id : Nat}
    (pending : task.pendingTriple? = some id) : task = .processTriple id := by
  cases task <;> cases pending
  rfl

theorem BoardSpecialsOnce.step {task : Task env.sampler} {before after : ShopState}
    {calls : List (Task env.sampler)} (bases : BasesSpecialsOnce env.emoBases)
    (once : BoardSpecialsOnce before.board) (met : MergesSpecialsOnce env task before)
    (performed : perform env task before = .ok (calls, after)) :
    BoardSpecialsOnce after.board := by
  cases perform_effect performed with
  | update _ update _ => exact update.board.forall SpecialsOnce.changed once
  | settled _ _ _ _ _ _ _ same => rwa [same]
  | addition base baseId isTriple _ found addition _ =>
      obtain ⟨_, ⟨index, _, inserted⟩, _⟩ := addition
      rw [inserted]
      exact once.insertIdx (bases _ _ found)
  | merge newEmoId target checked member identified merge =>
      obtain ⟨enough, ⟨triple, built, _, ⟨index, _, inserted⟩, _⟩, _⟩ := merge
      obtain ⟨base, found, _, abilities⟩ := built.base
      rw [inserted]
      refine BoardSpecialsOnce.insertIdx
        (fun emo inside => once emo (List.mem_filter.mp inside).1) ?_
      rw [abilities]
      refine (buildTripleAbilities_specialsOnce_iff (bases _ _ found) fun emo inside =>
        once emo (List.mem_filter.mp inside).1).mpr fun special additional => ?_
      exact met newEmoId target base special (Task.processTriple_of_pending checked) member
        identified found enough additional

theorem BoardSpecialsOnce.returns {stack : List (Task env.sampler)} {before after : ShopState}
    (bases : BasesSpecialsOnce env.emoBases) (once : BoardSpecialsOnce before.board)
    (meets : ∀ task state, PerformedIn (perform env) ⟨stack, before⟩ task state →
      MergesSpecialsOnce env task state)
    (returned : Returns (perform env) ⟨stack, before⟩ after) : BoardSpecialsOnce after.board :=
  Reaches.invariant_of_performed (P := fun config => BoardSpecialsOnce config.state.board) meets
    (fun holds met performed => holds.step bases met performed) returned once

theorem BoardSpecialsOnce.operated {input : TurnInput} {catalog : Catalog}
    {operation : PlayerOperation} {before after : TurnState}
    (bases : BasesSpecialsOnce env.emoBases) (once : BoardSpecialsOnce before.shop.board)
    (meets : ∀ task state, input.Performs env task state → MergesSpecialsOnce env task state)
    (comes : input.ComesTo env catalog operation before)
    (operated : Operated env catalog before after operation) :
    BoardSpecialsOnce after.shop.board := by
  cases operated with
  | buy called _ found addition _ returned _ =>
      obtain ⟨_, ⟨index, _, inserted⟩, _⟩ := addition
      refine BoardSpecialsOnce.returns bases ?_
        (fun task state performed => meets task state (.operation comes called performed)) returned
      rw [inserted]
      exact once.insertIdx (bases _ _ found)
  | sell called _ removal _ _ returned _ =>
      refine BoardSpecialsOnce.returns bases ?_
        (fun task state performed => meets task state (.operation comes called performed)) returned
      rw [removal]
      exact fun emo member => once emo (List.mem_of_mem_eraseIdx member)
  | move permuted _ _ => exact fun emo member => once emo (permuted.subset member)
  | nextCatalogLine shop _ => rwa [shop]
  | upgrade shop _ => rwa [shop]

/-- An accepted turn in which no merge brings a special ability along
twice. -/
def KeepingTurn (env : Env) (before after : Board) : Prop :=
  ∃ input last, input.board = before ∧ TurnInput.play env input = pure last ∧
    (∀ task state, input.Performs env task state → MergesSpecialsOnce env task state) ∧
    after = last.shop.board.intoBoard

theorem KeepingTurn.specialsOnce {before after : Board} (bases : BasesSpecialsOnce env.emoBases)
    (once : ∀ emo ∈ before, SpecialsOnce emo.attributes.abilities)
    (kept : KeepingTurn env before after) :
    ∀ emo ∈ after, SpecialsOnce emo.attributes.abilities := by
  obtain ⟨input, last, rfl, played, meets, rfl⟩ := kept
  obtain ⟨_, _, lastOnce⟩ := TurnInput.play_invariant
    (P := fun _ _ state => BoardSpecialsOnce state.shop.board)
    (fun started => by
      refine BoardSpecialsOnce.returns bases (fun emo member => ?_)
        (fun task state performed => meets task state (.opening performed))
        (startTurn_opened started).returned
      have present : emo.intoBoardEmo ∈
          (ShopBoard.fromBoard input.board input.generatedIds).intoBoard :=
        List.mem_map_of_mem member
      rw [ShopBoard.intoBoard_fromBoard] at present
      exact once _ present)
    (fun comes holds performed =>
      holds.operated bases meets comes (applyOperation_operated performed)) played
  intro boardEmo member
  obtain ⟨emo, present, rfl⟩ := List.mem_map.mp member
  exact lastOnce emo present

/-- As long as no merge brings a special ability along twice, no emo has one
twice. -/
theorem specialsOnce_of_keepingTurns {board : Board} (bases : BasesSpecialsOnce env.emoBases)
    (played : Relation.ReflTransGen (KeepingTurn env) [] board) :
    ∀ emo ∈ board, SpecialsOnce emo.attributes.abilities := by
  induction played with
  | refl => exact List.forall_mem_nil _
  | tail _ kept ih => exact kept.specialsOnce bases ih

/-- Where no merge can bring a special ability along, every turn keeps them. -/
theorem AcceptedTurn.keeping {before after : Board} (accepted : AcceptedTurn env before after)
    (meets : ∀ task state, MergesSpecialsOnce env task state) : KeepingTurn env before after := by
  obtain ⟨input, last, board, played, _, result⟩ := accepted
  exact ⟨input, last, board, played, fun task state _ => meets task state, result⟩

/-- The special abilities of these copies are their base's own. -/
theorem specialsOnce_of_keepingTurns_triple :
    let specials : List Ability :=
      [.battle (.special .shield), .battle (.special .attractive),
        .battle (.special .attackLowestAttack)]
    let triple : BoardEmo := ⟨[36, 35, 34], 0, ⟨4, 6, specials, true⟩⟩
    ∀ emo ∈ [triple], SpecialsOnce emo.attributes.abilities := by
  intro specials triple
  let env : Env :=
    { emoBases := fun id => if id = 0 then some ⟨0, .food, 1, 2, 3, specials⟩ else none
      sampler := .first }
  let pool : List Emo := (List.range 56).map fun id => ⟨id, 0⟩
  let copy (id : Nat) : BoardEmo := ⟨[id], 0, ⟨2, 3, specials, false⟩⟩
  have abilities : ∀ id base, env.emoBases id = some base → base.abilities = specials := by
    intro id base found
    simp only [env] at found
    split at found <;> cases found
    rfl
  have meets : ∀ task state, MergesSpecialsOnce env task state := by
    intro task state _ target base special _ _ _ found _ additional
    rw [abilities _ _ found] at additional
    cases special <;> simp [specials] at additional
  have first : AcceptedTurn env [] [copy 34] :=
    .of_run [.buy 34 0] pool 20 1 0 1 none (by decide +kernel)
  have second : AcceptedTurn env [copy 34] [copy 35, copy 34] :=
    .of_run [.buy 35 0] pool 20 1 0 2 none (by decide +kernel)
  have third : AcceptedTurn env [copy 35, copy 34] [triple] :=
    .of_run [.buy 36 0] pool 20 1 0 3 none (by decide +kernel)
  exact @specialsOnce_of_keepingTurns env _
    (fun id base found special => by
      rw [abilities id base found]
      cases special <;> decide)
    (((Relation.ReflTransGen.single (first.keeping meets)).tail (second.keeping meets)).tail
      (third.keeping meets))

/-- An emo with this ability gives itself a shield when it is set. -/
def setShield : Ability :=
  .shop (.peri (.asOneself .set (.addAbility .oneself (.battle (.special .shield)))))

/-- Each of three copies has given itself a shield, and their triple has all
three. -/
theorem merge_brings_shields_along :
    ∃ (env : Env) (board : Board), BasesSpecialsOnce env.emoBases ∧
      Relation.ReflTransGen (AcceptedTurn env) [] board ∧
      ¬ ∀ emo ∈ board, SpecialsOnce emo.attributes.abilities := by
  let shield : Ability := .battle (.special .shield)
  let env : Env :=
    { emoBases := fun id => if id = 0 then some ⟨0, .food, 1, 2, 3, [setShield]⟩ else none
      sampler := .first }
  let pool : List Emo := (List.range 56).map fun id => ⟨id, 0⟩
  let copy (id : Nat) : BoardEmo := ⟨[id], 0, ⟨2, 3, [setShield, shield], false⟩⟩
  let triple : BoardEmo :=
    ⟨[36, 35, 34], 0, ⟨4, 6, [setShield, shield, shield, shield], true⟩⟩
  have first : AcceptedTurn env [] [copy 34] :=
    .of_run [.buy 34 0] pool 20 1 0 1 none (by decide +kernel)
  have second : AcceptedTurn env [copy 34] [copy 35, copy 34] :=
    .of_run [.buy 35 0] pool 20 1 0 2 none (by decide +kernel)
  have third : AcceptedTurn env [copy 35, copy 34] [triple] :=
    .of_run [.buy 36 0] pool 20 1 0 3 none (by decide +kernel)
  refine ⟨env, [triple], fun id base found special => ?_,
    ((Relation.ReflTransGen.single first).tail second).tail third, fun once => ?_⟩
  · simp only [env] at found
    split at found <;> cases found
    cases special <;> decide
  · have shields := once triple (List.mem_singleton_self _) .shield
    exact absurd shields (by decide)

end EmojiBattler.Mtc.Shop
