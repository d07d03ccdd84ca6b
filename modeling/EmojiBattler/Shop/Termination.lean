import Mathlib.Data.Prod.Lex
import EmojiBattler.Library.Termination
import EmojiBattler.Shop.Effects

/-! # The cascade of a shop is finite

An emo stays on the board unless a triple takes its place, so every new emo
finds more triples than the one before it or, with as many, a longer board. -/

namespace EmojiBattler.Mtc.Shop

open EmojiBattler.Emo CallMachine

variable {env : Env}

def countTriples (board : ShopBoard) : Nat := board.countP fun emo => emo.attributes.isTriple

/-- How many more triples and how many more emos fit on the board. -/
def remainingRoom (board : ShopBoard) : Nat ×ₗ Nat :=
  toLex (boardEmoMaxCount - countTriples board, boardEmoMaxCount - board.length)

/-- The second board has more triples, or as many and more emos. -/
def Grown (before after : ShopBoard) : Prop :=
  countTriples before < countTriples after ∨
    (countTriples before = countTriples after ∧ before.length < after.length)

/-- Performed with this board, the task calls `add_emo_with_board_emo`. -/
def AddsEmo {sampler : Sampling.Sampler} (task : Task sampler) (board : ShopBoard) : Prop :=
  match task with
  | .callAbilityAction (.setEmo _) _ _ => board.countEmos < boardEmoMaxCount
  | .processTriple newEmoId =>
      ∃ target newEmoIndex, board.getEmoAndIndexById newEmoId = .ok (target, newEmoIndex) ∧
        3 ≤ (board.filter (isSameBaseNotTriple target.baseId)).length
  | _ => False

/-- How deep the calls of a task nest before they add an emo. -/
def Task.depth {sampler : Sampling.Sampler} : Task sampler → Nat
  | .callPreAbilities _ abilities => abilities.length + 2
  | .callBoardAdditionAbilities .. => 2
  | .callAbilityActionAsOneself .. | .callAbilityActionAsAlly .. => 1
  | _ => 0

/-! ## Boards -/

theorem countTriples_le (board : ShopBoard) : countTriples board ≤ board.length :=
  List.countP_le_length

theorem BoardChanged.countTriples_eq {before after : ShopBoard}
    (changed : BoardChanged before after) : countTriples after = countTriples before :=
  changed.countP_eq fun change => change.isTriple_eq

theorem Grown.trans {before middle after : ShopBoard} (first : Grown before middle)
    (second : Grown middle after) : Grown before after := by
  unfold Grown at *
  omega

theorem Grown.remainingRoom_lt {before after : ShopBoard} (grown : Grown before after)
    (small : after.length ≤ boardEmoMaxCount) : remainingRoom after < remainingRoom before := by
  have triples := countTriples_le after
  rw [remainingRoom, remainingRoom, Prod.Lex.toLex_lt_toLex]
  rcases grown with more | ⟨same, longer⟩
  · apply Or.inl
    simp only
    omega
  · apply Or.inr
    simp only
    omega

/-- A new emo makes the board longer. -/
theorem Addition.sizes {newEmo : ShopBoardEmo} {before : ShopBoard} {after : ShopState}
    {calls : List (Task env.sampler)} (addition : Addition newEmo before after calls)
    (small : before.length ≤ boardEmoMaxCount) :
    after.board.length = before.length + 1 ∧ after.board.length ≤ boardEmoMaxCount ∧
      countTriples after.board =
        countTriples before + if newEmo.attributes.isTriple then 1 else 0 := by
  obtain ⟨room, ⟨index, bound, inserted⟩, _⟩ := addition
  rw [ShopBoard.countEmos, Nat.mod_eq_of_lt
    (Nat.lt_of_le_of_lt small (by decide : boardEmoMaxCount < 256))] at room
  have length := List.length_insertIdx_of_le_length bound newEmo
  rw [inserted, length]
  refine ⟨rfl, room, ?_⟩
  rw [countTriples, (List.perm_insertIdx newEmo before bound).countP_eq, List.countP_cons]
  rfl

theorem Addition.grown {newEmo : ShopBoardEmo} {before : ShopBoard} {after : ShopState}
    {calls : List (Task env.sampler)} (addition : Addition newEmo before after calls)
    (small : before.length ≤ boardEmoMaxCount) : Grown before after.board := by
  obtain ⟨longer, _, triples⟩ := addition.sizes small
  unfold Grown
  split at triples <;> omega

/-- A merge keeps every triple and adds one. -/
theorem Merge.grown {target : ShopBoardEmo} {before after : ShopState}
    {calls : List (Task env.sampler)} (merge : Merge env target before after calls)
    (small : before.board.length ≤ boardEmoMaxCount) :
    Grown before.board after.board ∧ after.board.length ≤ boardEmoMaxCount := by
  obtain ⟨_, ⟨triple, built, addition⟩, _⟩ := merge
  have shorter : (before.board.filter fun emo =>
      !isSameBaseNotTriple target.baseId emo).length ≤ boardEmoMaxCount :=
    Nat.le_trans (List.length_filter_le _ _) small
  obtain ⟨_, bound, triples⟩ := addition.sizes shorter
  have kept : countTriples (before.board.filter fun emo =>
      !isSameBaseNotTriple target.baseId emo) = countTriples before.board := by
    rw [countTriples, List.countP_filter]
    apply List.countP_congr
    intro emo _
    cases triple : emo.attributes.isTriple <;> simp [isSameBaseNotTriple, triple]
  rw [kept, if_pos built.isTriple] at triples
  exact ⟨.inl (by omega), bound⟩

/-! ## Tasks -/

/-- A task adds an emo, or it leaves the size of the board alone and calls only
tasks that nest less deep. -/
inductive Descent (env : Env) (task : Task env.sampler) (before after : ShopState)
    (calls : List (Task env.sampler)) : Prop where
  | adds (grown : Grown before.board after.board)
      (small : after.board.length ≤ boardEmoMaxCount)
  | calls (others : ¬ AddsEmo task before.board) (update : Update before after)
      (lighter : ∀ call ∈ calls, call.depth < task.depth)

theorem setEmo_descent {baseId : Nat} {actionEmoPointer : EmoPointer} {isTripleAction : Bool}
    {state after : ShopState} {calls : List (Task env.sampler)}
    (small : state.board.length ≤ boardEmoMaxCount)
    (performed : setEmo env actionEmoPointer isTripleAction baseId state = .ok (calls, after)) :
    Descent env (.callAbilityAction (.setEmo baseId) actionEmoPointer isTripleAction) state after
      calls := by
  simp only [setEmo] at performed
  split at performed
  · simp only [Result.bind_eq_ok_iff, Result.pure_eq_ok_iff, Prod.mk.injEq] at performed
    obtain ⟨index, _, ⟨additionCalls, _⟩, added, rfl, rfl⟩ := performed
    obtain ⟨base, _, addition, _⟩ := addEmoCalls_addition added
    exact .adds (addition.grown small) (addition.sizes small).2.1
  · rename_i full
    cases performed
    exact .calls full (.refl _) (List.forall_mem_nil _)

theorem processTriple_descent {newEmoId : Nat} {state after : ShopState}
    {calls : List (Task env.sampler)} (small : state.board.length ≤ boardEmoMaxCount)
    (performed : processTriple env newEmoId state = .ok (calls, after)) :
    Descent env (.processTriple newEmoId) state after calls := by
  obtain ⟨target, newEmoIndex, found, merge | ⟨few, rfl, rfl⟩⟩ := processTriple_cases performed
  · exact .adds (merge.grown small).1 (merge.grown small).2
  · refine .calls ?_ (.refl _) (List.forall_mem_nil _)
    rintro ⟨other, otherIndex, again, enough⟩
    rw [found] at again
    cases again
    omega

theorem perform_descent {task : Task env.sampler} {state after : ShopState}
    {calls : List (Task env.sampler)} (small : state.board.length ≤ boardEmoMaxCount)
    (performed : perform env task state = .ok (calls, after)) :
    Descent env task state after calls := by
  cases task with
  | callPreAbilities rng abilities =>
      obtain ⟨writes, origin⟩ := callPreAbilities_cases performed
      refine .calls id writes.writes.update fun call member => ?_
      obtain ⟨_, _, rfl⟩ | ⟨_, _, _, rfl, rfl⟩ := origin call member <;> simp [Task.depth]
  | callAbilityActionAsOneself action actionEmoPointer =>
      simp only [perform, callAbilityActionAsOneself, Result.bind_eq_ok_iff,
        Result.pure_eq_ok_iff, Prod.mk.injEq] at performed
      obtain ⟨_, _, rfl, rfl⟩ := performed
      refine .calls id (.refl _) fun call member => ?_
      rw [List.mem_singleton.mp member]
      exact Nat.zero_lt_one
  | callAbilityActionAsAlly action oneselfEmoId allyEmoPointer =>
      obtain ⟨rfl, origin⟩ := callAbilityActionAsAlly_cases performed
      refine .calls id (.refl _) fun call member => ?_
      obtain ⟨_, _, rfl⟩ := origin call member
      exact Nat.zero_lt_one
  | callAbilityAction action actionEmoPointer isTripleAction =>
      by_cases sets : ∃ baseId, action = .setEmo baseId
      · obtain ⟨baseId, rfl⟩ := sets
        exact setEmo_descent small performed
      · obtain ⟨writes, rfl⟩ := (callAbilityAction_writes performed).resolve_left sets
        refine .calls (fun adds => ?_) writes.update (List.forall_mem_nil _)
        unfold AddsEmo at adds
        split at adds
        · rename_i same
          cases same
          exact sets ⟨_, rfl⟩
        · rename_i same
          cases same
        · exact adds
  | callBoardAdditionAbilities newEmoId newEmoTyp isNewEmoTriple =>
      cases performed
      refine .calls id (.refl _) fun call member => ?_
      obtain ⟨_, _, rfl⟩ | ⟨_, _, rfl⟩ := callBoardAdditionAbilities_cases member <;>
        exact Nat.one_lt_two
  | processTriple newEmoId => exact processTriple_descent small performed
  | setEmoReturn gottenCoin =>
      cases performed
      exact .calls id ⟨.refl _, rfl⟩ (List.forall_mem_nil _)
  | processTripleReturn gottenCoin =>
      cases performed
      exact .calls id ⟨.refl _, rfl⟩ (List.forall_mem_nil _)

theorem Update.size_eq {before after : ShopState} (update : Update before after) :
    after.board.length = before.board.length ∧
      countTriples after.board = countTriples before.board :=
  ⟨update.board.length_eq.symm, update.board.countTriples_eq⟩

/-! ## Runs -/

/-- The remaining room bounds the additions, and the depth the calls between
two of them. -/
theorem perform_descending (env : Env) :
    Descending (perform env) (fun state => state.board.length ≤ boardEmoMaxCount)
      (fun state => remainingRoom state.board) Task.depth where
  keeps small performed := by
    cases perform_descent small performed with
    | adds _ bound => exact bound
    | calls _ update _ => rwa [update.size_eq.1]
  descends small performed := by
    cases perform_descent small performed with
    | adds grown bound => exact .inl (grown.remainingRoom_lt bound)
    | calls _ update lighter =>
        refine .inr ⟨?_, lighter⟩
        simp only [remainingRoom, update.size_eq]

/-- No run makes the board less grown. -/
theorem Reaches.grown {stack rest : List (Task env.sampler)} {before after : ShopState}
    (small : before.board.length ≤ boardEmoMaxCount)
    (reached : Reaches (perform env) ⟨stack, before⟩ ⟨rest, after⟩) :
    after.board.length ≤ boardEmoMaxCount ∧
      (Grown before.board after.board ∨
        (countTriples before.board = countTriples after.board ∧
          before.board.length = after.board.length)) := by
  refine Reaches.state_invariant
    (P := fun state => state.board.length ≤ boardEmoMaxCount ∧
      (Grown before.board state.board ∨
        (countTriples before.board = countTriples state.board ∧
          before.board.length = state.board.length)))
    (fun {task calls state after} holds performed => ?_) reached ⟨small, .inr ⟨rfl, rfl⟩⟩
  obtain ⟨bound, since⟩ := holds
  cases perform_descent bound performed with
  | adds grown later =>
      refine ⟨later, .inl ?_⟩
      rcases since with since | ⟨triples, length⟩
      · exact since.trans grown
      · rwa [Grown, triples, length]
  | calls _ update _ =>
      obtain ⟨length, triples⟩ := update.size_eq
      rw [Grown, length, triples]
      exact ⟨bound, since⟩

/-- An addition that another one causes finds more triples on its board than
that one, or as many triples and more emos. -/
theorem nested_addition_grown {newBoardEmo : ShopBoardEmo} {emoIndex : Nat}
    {before outer middle inner : ShopState} {calls nested : List (Task env.sampler)}
    {task : Task env.sampler} (small : before.board.length ≤ boardEmoMaxCount)
    (added : addEmoWithBoardEmo env newBoardEmo emoIndex before = .ok (calls, outer))
    (caused : PerformedIn (perform env) ⟨calls, outer⟩ task middle)
    (adds : AddsEmo task middle.board)
    (performed : perform env task middle = .ok (nested, inner)) :
    Grown outer.board inner.board ∧ inner.board.length ≤ boardEmoMaxCount := by
  have bound := ((addEmoWithBoardEmo_addition added).1.sizes small).2.1
  obtain ⟨rest, reached⟩ := caused
  obtain ⟨still, since⟩ := Reaches.grown bound reached
  cases perform_descent still performed with
  | adds grown last =>
      refine ⟨?_, last⟩
      rcases since with since | ⟨triples, length⟩
      · exact since.trans grown
      · rwa [Grown, triples, length]
  | calls others _ _ => exact absurd adds others

theorem runCalls_ends {calls : Calls env} (small : calls.2.board.length ≤ boardEmoMaxCount) :
    ∃ fuel, (runCalls env fuel calls).run.isSome :=
  ((perform_descending env).terminates calls.1 small).exists_run

theorem of_runCalls_ends {result : Result (Calls env)}
    (small : ∀ calls, result = .ok calls → calls.2.board.length ≤ boardEmoMaxCount) :
    ∃ fuel, (Fueled.of result >>= runCalls env fuel).run.isSome := by
  cases result with
  | error error => exact ⟨0, rfl⟩
  | ok calls => exact runCalls_ends (small calls rfl)

/-- The shop actions end, with a result or an error, and the additions they
nest use up the room on the board. -/
theorem shop_cascade_terminates (state : ShopState)
    (small : state.board.length ≤ boardEmoMaxCount) :
    (∀ seed, ∃ fuel, (startShop env fuel seed state).run.isSome) ∧
    (∀ mtcEmoIds baseId isTriple emoIndex,
      ∃ fuel, (addEmo env fuel mtcEmoIds baseId isTriple emoIndex state).run.isSome) ∧
    (∀ emoIndex, ∃ fuel, (sellEmo env fuel emoIndex state).run.isSome) ∧
    ∀ newBoardEmo emoIndex calls outer,
      addEmoWithBoardEmo env newBoardEmo emoIndex state = .ok (calls, outer) →
      ∀ task middle nested inner, PerformedIn (perform env) ⟨calls, outer⟩ task middle →
        AddsEmo task middle.board → perform env task middle = .ok (nested, inner) →
        (countTriples outer.board < countTriples inner.board ∨
          (countTriples outer.board = countTriples inner.board ∧
            outer.board.length < inner.board.length)) ∧
        remainingRoom inner.board < remainingRoom outer.board := by
  refine ⟨fun seed => runCalls_ends small, fun mtcEmoIds baseId isTriple emoIndex => ?_,
    fun emoIndex => ?_, fun newBoardEmo emoIndex calls outer added task middle nested inner
      caused adds performed => ?_⟩
  · apply of_runCalls_ends
    rintro ⟨calls, after⟩ added
    obtain ⟨base, _, addition, _⟩ := addEmoCalls_addition added
    exact (addition.sizes small).2.1
  · apply of_runCalls_ends
    rintro ⟨calls, started⟩ sold
    simp only [sellEmoCalls, Result.bind_eq_ok_iff, Result.pure_eq_ok_iff, Prod.mk.injEq] at sold
    obtain ⟨_, _, _, _, _, rfl⟩ := sold
    exact Nat.le_trans (List.length_eraseIdx_le _ _) (by simpa using small)
  · obtain ⟨grown, bound⟩ := nested_addition_grown small added caused adds performed
    exact ⟨grown, grown.remainingRoom_lt bound⟩

/-- An emo that sets a copy of itself whenever it is set. -/
def selfSettingBase : Base where
  id := 0
  typ := .food
  grade := 1
  attack := 1
  health := 1
  abilities := [.shop (.peri (.asOneself .set (.setEmo 0)))]

def selfSettingEnv : Env where
  emoBases id := if id = 0 then some selfSettingBase else none
  sampler := .first

/-- The first copy finds a longer board than its cause. -/
theorem shop_cascade_terminates_selfSetting :
    let start : ShopState := { board := [], logs := [], gottenCoin := 0, generatedIds := 1 }
    let emo (id : Nat) : ShopBoardEmo := .newWithBase id [] selfSettingBase false
    (∃ fuel, (startShop selfSettingEnv fuel 0 start).run.isSome) ∧
    (∃ fuel, (addEmo selfSettingEnv fuel [] 0 false 0 start).run.isSome) ∧
    (∃ fuel, (sellEmo selfSettingEnv fuel 0 start).run.isSome) ∧
    remainingRoom [emo 0, emo 1] < remainingRoom [emo 0] := by
  intro start emo
  obtain ⟨starts, adds, sells, nests⟩ :=
    @shop_cascade_terminates selfSettingEnv start (by decide)
  let outer : ShopState := { start with board := [emo 0] }
  let task : Task selfSettingEnv.sampler := .callAbilityAction (.setEmo 0) (.onBoard 0) false
  let inner : ShopState := { start with board := [emo 0, emo 1], generatedIds := 2 }
  let later : List (Task selfSettingEnv.sampler) :=
    [.callBoardAdditionAbilities 0 .food false, .processTriple 0]
  let calls : List (Task selfSettingEnv.sampler) :=
    .callAbilityActionAsOneself (.setEmo 0) (.onBoard 0) :: later
  have added : addEmoWithBoardEmo selfSettingEnv (emo 0) 0 start = .ok (calls, outer) := rfl
  have called : perform selfSettingEnv (.callAbilityActionAsOneself (.setEmo 0) (.onBoard 0))
      outer = .ok ([task], outer) := rfl
  have caused : PerformedIn (perform selfSettingEnv) ⟨calls, outer⟩ task outer :=
    ⟨later, .single (.call called)⟩
  have performed : ∃ nested, perform selfSettingEnv task outer = .ok (nested, inner) := ⟨_, rfl⟩
  obtain ⟨nested, performed⟩ := performed
  have room : outer.board.countEmos < boardEmoMaxCount := by decide
  have grown := nests (emo 0) 0 calls outer added task outer nested inner caused room performed
  exact ⟨starts 0, adds [] 0 false 0, sells 0, grown.2⟩

end EmojiBattler.Mtc.Shop
