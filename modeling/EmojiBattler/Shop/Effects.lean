import EmojiBattler.Library.Keyed
import EmojiBattler.Library.Positions
import EmojiBattler.Shop.Board

/-! # What a task does to the board

Every task either changes emos in place, or adds one new emo, or merges the
emos of one base.  The invariants of the shop are derived from this alone. -/

namespace EmojiBattler.Mtc.Shop

open EmojiBattler.Emo Sampling
open EmojiBattler.Emo.Ability (Destination Target TypOptAndIsTripleOpt)
open EmojiBattler.Emo.Ability.Shop (NormalAction Peri PeriAsAllyAction Pre)

/-! ## Changes in place -/

inductive Modified : ShopBoardEmo → ShopBoardEmo → Prop where
  | stats (emo : ShopBoardEmo) (attack health : Nat) :
      Modified emo { emo with attributes := { emo.attributes with attack, health } }
  | ability (emo : ShopBoardEmo) (ability : Ability)
      (isNew : isSpecialBattleAbility ability → ability ∉ emo.attributes.abilities) :
      Modified emo { emo with attributes :=
        { emo.attributes with abilities := emo.attributes.abilities ++ [ability] } }

/-- An emo that stays keeps its identity. -/
abbrev Changed : ShopBoardEmo → ShopBoardEmo → Prop := Relation.ReflTransGen Modified

/-- What no modification changes, no sequence of them does. -/
theorem Changed.preserves {f : ShopBoardEmo → α}
    (kept : ∀ {before after}, Modified before after → f after = f before)
    {before after : ShopBoardEmo} (changed : Changed before after) : f after = f before := by
  induction changed with
  | refl => rfl
  | tail _ modified ih => rw [kept modified, ih]

theorem Changed.id_eq {before after : ShopBoardEmo} (changed : Changed before after) :
    after.id = before.id :=
  changed.preserves fun modified => by cases modified <;> rfl

theorem Changed.mtcEmoIds_eq {before after : ShopBoardEmo} (changed : Changed before after) :
    after.mtcEmoIds = before.mtcEmoIds :=
  changed.preserves fun modified => by cases modified <;> rfl

theorem Changed.baseId_eq {before after : ShopBoardEmo} (changed : Changed before after) :
    after.baseId = before.baseId :=
  changed.preserves fun modified => by cases modified <;> rfl

theorem Changed.isTriple_eq {before after : ShopBoardEmo} (changed : Changed before after) :
    after.attributes.isTriple = before.attributes.isTriple :=
  changed.preserves (f := fun emo => emo.attributes.isTriple) fun modified => by
    cases modified <;> rfl

abbrev BoardChanged : ShopBoard → ShopBoard → Prop := List.Forall₂ Changed

theorem BoardChanged.refl (board : ShopBoard) : BoardChanged board board :=
  List.forall₂_same.mpr fun _ _ => .refl

theorem BoardChanged.trans {before middle after : ShopBoard}
    (first : BoardChanged before middle) (second : BoardChanged middle after) :
    BoardChanged before after := by
  induction first generalizing after with
  | nil => exact second
  | cons changed _ ih =>
      cases second with
      | cons again rest => exact .cons (changed.trans again) (ih rest)

theorem BoardChanged.set {board : ShopBoard} {index : Nat} {emo changed : ShopBoardEmo}
    (found : board[index]? = some emo) (change : Changed emo changed) :
    BoardChanged board (board.set index changed) := by
  induction board generalizing index with
  | nil => cases found
  | cons head rest ih =>
      cases index with
      | zero =>
          cases found
          exact .cons change (BoardChanged.refl rest)
      | succ index => exact .cons .refl (ih found)

/-- What every modification keeps of each emo, the board keeps. -/
theorem BoardChanged.map_eq {before after : ShopBoard} (changed : BoardChanged before after)
    {f : ShopBoardEmo → α} (kept : ∀ {before after}, Changed before after → f after = f before) :
    after.map f = before.map f := by
  induction changed with
  | nil => rfl
  | cons change _ ih => rw [List.map_cons, List.map_cons, kept change, ih]

theorem BoardChanged.flatMap_mtcEmoIds {before after : ShopBoard}
    (changed : BoardChanged before after) :
    after.flatMap ShopBoardEmo.mtcEmoIds = before.flatMap ShopBoardEmo.mtcEmoIds := by
  rw [List.flatMap_def, List.flatMap_def, changed.map_eq Changed.mtcEmoIds_eq]

theorem BoardChanged.countP_eq {before after : ShopBoard} (changed : BoardChanged before after)
    {p : ShopBoardEmo → Bool} (kept : ∀ {before after}, Changed before after → p after = p before) :
    after.countP p = before.countP p := by
  have countP_id (board : ShopBoard) : board.countP p = (board.map p).countP id := by
    rw [List.countP_map]
    rfl
  rw [countP_id, countP_id, changed.map_eq kept]

theorem BoardChanged.forall {before after : ShopBoard} (changed : BoardChanged before after)
    {P : ShopBoardEmo → Prop} (kept : ∀ {before after}, Changed before after → P before → P after)
    (holds : ∀ emo ∈ before, P emo) : ∀ emo ∈ after, P emo := by
  induction changed with
  | nil => exact List.forall_mem_nil _
  | cons change _ ih =>
      rw [List.forall_mem_cons] at holds ⊢
      exact ⟨kept change holds.1, ih holds.2⟩

/-- The same of changes that leave all abilities. -/
theorem BoardChanged.forall_of_abilities_eq {before after : ShopBoard}
    (changed : BoardChanged before after)
    (same : (after.map fun emo => emo.attributes.abilities) =
      before.map fun emo => emo.attributes.abilities) {P : ShopBoardEmo → Prop}
    (kept : ∀ {before after}, Changed before after →
      after.attributes.abilities = before.attributes.abilities → P before → P after)
    (holds : ∀ emo ∈ before, P emo) : ∀ emo ∈ after, P emo := by
  induction changed with
  | nil => exact List.forall_mem_nil _
  | cons change _ ih =>
      rw [List.map_cons, List.map_cons, List.cons.injEq] at same
      rw [List.forall_mem_cons] at holds ⊢
      exact ⟨kept change same.1 holds.1, ih same.2 holds.2⟩

/-- A change in place generates no ids. -/
structure Update (before after : ShopState) : Prop where
  board : BoardChanged before.board after.board
  generatedIds : after.generatedIds = before.generatedIds

theorem Update.refl (state : ShopState) : Update state state := ⟨.refl _, rfl⟩

theorem Update.trans {before middle after : ShopState} (first : Update before middle)
    (second : Update middle after) : Update before after :=
  ⟨first.board.trans second.board, second.generatedIds.trans first.generatedIds⟩

variable {env : Env}

/-- One assignment of a task that neither adds nor merges, with its log. -/
inductive Write (env : Env) : ShopState → ShopState → Prop where
  | stats {state : ShopState} {index : Nat} {emo : ShopBoardEmo}
      (found : state.board[index]? = some emo)
      (attack health calculatedAttack calculatedHealth : Nat) :
      Write env state ((state.addLog env (.increaseStats index attack health calculatedAttack
        calculatedHealth)).setEmoAt index { emo with attributes :=
          { emo.attributes with attack := calculatedAttack, health := calculatedHealth } })
  | ability {state : ShopState} {index : Nat} {emo : ShopBoardEmo}
      (found : state.board[index]? = some emo) (ability : Ability)
      (isNew : isSpecialBattleAbility ability → ability ∉ emo.attributes.abilities) :
      Write env state ((state.addLog env (.addAbility index ability
        emo.attributes.isTriple)).setEmoAt index { emo with attributes :=
          { emo.attributes with abilities := emo.attributes.abilities ++ [ability] } })
  | coin (state : ShopState) (gottenCoin : Nat) : Write env state { state with gottenCoin }

abbrev Writes (env : Env) : ShopState → ShopState → Prop := Relation.ReflTransGen (Write env)

theorem Write.update {before after : ShopState} (write : Write env before after) :
    Update before after := by
  cases write with
  | stats found =>
      refine ⟨?_, by simp [ShopState.setEmoAt]⟩
      simp only [ShopState.setEmoAt, ShopState.addLog_board]
      exact .set found (.single (.stats ..))
  | ability found ability isNew =>
      refine ⟨?_, by simp [ShopState.setEmoAt]⟩
      simp only [ShopState.setEmoAt, ShopState.addLog_board]
      exact .set found (.single (.ability _ _ isNew))
  | coin => exact ⟨.refl _, rfl⟩

theorem Writes.update {before after : ShopState} (writes : Writes env before after) :
    Update before after := by
  induction writes with
  | refl => exact .refl _
  | tail _ write ih => exact ih.trans write.update

/-- A loop whose iterations are sequences of steps is one. -/
theorem reflTransGen_foldlM {R : ShopState → ShopState → Prop}
    {f : ShopState → α → Result ShopState}
    {values : List α} {before after : ShopState}
    (step : ∀ {value before after}, f before value = .ok after →
      Relation.ReflTransGen R before after)
    (performed : values.foldlM f before = .ok after) : Relation.ReflTransGen R before after := by
  induction values generalizing before with
  | nil =>
      cases performed
      exact .refl
  | cons value rest ih =>
      rw [List.foldlM_cons, Result.bind_eq_ok_iff] at performed
      obtain ⟨middle, first, performed⟩ := performed
      exact (step first).trans (ih performed)

theorem Writes.foldlM {f : ShopState → α → Result ShopState} {values : List α}
    {before after : ShopState}
    (step : ∀ {value before after}, f before value = .ok after → Writes env before after)
    (performed : values.foldlM f before = .ok after) : Writes env before after :=
  reflTransGen_foldlM step performed

/-- A write that leaves the abilities of every emo. -/
structure StatsWrite (env : Env) (before after : ShopState) : Prop where
  write : Write env before after
  abilities : (after.board.map fun emo => emo.attributes.abilities) =
    before.board.map fun emo => emo.attributes.abilities

abbrev StatsWrites (env : Env) : ShopState → ShopState → Prop :=
  Relation.ReflTransGen (StatsWrite env)

theorem StatsWrites.writes {before after : ShopState} (writes : StatsWrites env before after) :
    Writes env before after :=
  Relation.ReflTransGen.mono (fun _ _ => StatsWrite.write) _ _ writes

theorem StatsWrites.abilities_eq {before after : ShopState}
    (writes : StatsWrites env before after) :
    (after.board.map fun emo => emo.attributes.abilities) =
      before.board.map fun emo => emo.attributes.abilities := by
  induction writes with
  | refl => rfl
  | tail _ write ih => rw [write.abilities, ih]

theorem addAttackAndHealthToEmo_statsWrites {attack health boardEmoId : Nat}
    {state after : ShopState}
    (performed : addAttackAndHealthToEmo env attack health state boardEmoId = .ok after) :
    StatsWrites env state after := by
  simp only [addAttackAndHealthToEmo, Result.bind_eq_ok_iff, Result.pure_eq_ok_iff] at performed
  obtain ⟨⟨emo, index⟩, located, rfl⟩ := performed
  have found := (ShopBoard.getEmoMutAndIndexById_found located).1
  refine .single ⟨.stats found .., ?_⟩
  obtain ⟨bound, here⟩ := List.getElem?_eq_some_iff.mp found
  simp only [ShopState.setEmoAt, ShopState.addLog_board]
  exact Keyed.map_set_of_key_eq bound (by rw [here])

theorem addAttackAndHealthToEmo_writes {attack health boardEmoId : Nat} {state after : ShopState}
    (performed : addAttackAndHealthToEmo env attack health state boardEmoId = .ok after) :
    Writes env state after :=
  (addAttackAndHealthToEmo_statsWrites performed).writes

theorem addAttackAndHealthToEmos_statsWrites {emoPointer : EmoPointer} {target : Target}
    {attack health : Nat} {state after : ShopState}
    (performed : addAttackAndHealthToEmos env emoPointer target attack health state = .ok after) :
    StatsWrites env state after := by
  simp only [addAttackAndHealthToEmos, Result.bind_eq_ok_iff] at performed
  obtain ⟨ids, _, performed⟩ := performed
  exact reflTransGen_foldlM addAttackAndHealthToEmo_statsWrites performed

theorem addAbilityToEmo_writes {ability : Ability} {id : Nat} {state after : ShopState}
    (performed : addAbilityToEmo env ability state id = .ok after) : Writes env state after := by
  simp only [addAbilityToEmo, Result.bind_eq_ok_iff] at performed
  obtain ⟨⟨emo, index⟩, found, performed⟩ := performed
  split at performed
  · cases performed
    exact .refl
  · rename_i isNew
    cases performed
    exact .single (.ability (ShopBoard.getEmoMutAndIndexById_found found).1 _
      fun special contained => isNew ⟨special, contained⟩)

theorem addAbility_writes {emoPointer : EmoPointer} {target : Target} {ability : Ability}
    {state after : ShopState}
    (performed : addAbility env emoPointer target ability state = .ok after) :
    Writes env state after := by
  simp only [addAbility, Result.bind_eq_ok_iff] at performed
  obtain ⟨ids, _, performed⟩ := performed
  exact .foldlM addAbilityToEmo_writes performed

theorem increaseStatsOfLeft_statsWrites {actionEmoPointer : EmoPointer} {attack health : Nat}
    {state after : ShopState} {typOpt : Option Typ}
    (performed : increaseStatsOfLeft env actionEmoPointer attack health state =
      .ok (typOpt, after)) : StatsWrites env state after := by
  simp only [increaseStatsOfLeft, Result.bind_eq_ok_iff] at performed
  obtain ⟨id, _, performed⟩ := performed
  cases id with
  | some id =>
      simp only [Result.bind_eq_ok_iff, Result.pure_eq_ok_iff, Prod.mk.injEq] at performed
      obtain ⟨_, _, _, _, _, changed, _, rfl⟩ := performed
      exact addAttackAndHealthToEmo_statsWrites changed
  | none =>
      cases performed
      exact .refl

theorem increaseStatsOfLeft_writes {actionEmoPointer : EmoPointer} {attack health : Nat}
    {state after : ShopState} {typOpt : Option Typ}
    (performed : increaseStatsOfLeft env actionEmoPointer attack health state =
      .ok (typOpt, after)) : Writes env state after :=
  (increaseStatsOfLeft_statsWrites performed).writes

theorem increaseStatsOfRight_statsWrites {actionEmoPointer : EmoPointer} {leftTypOpt : Option Typ}
    {attack health : Nat} {state after : ShopState}
    (performed : increaseStatsOfRight env actionEmoPointer leftTypOpt attack health state =
      .ok after) : StatsWrites env state after := by
  simp only [increaseStatsOfRight, Result.bind_eq_ok_iff] at performed
  obtain ⟨id, _, performed⟩ := performed
  cases id with
  | some id =>
      simp only [Result.bind_eq_ok_iff] at performed
      obtain ⟨emo, _, performed⟩ := performed
      cases leftTypOpt with
      | some leftTyp =>
          simp only [Result.bind_eq_ok_iff] at performed
          obtain ⟨base, _, performed⟩ := performed
          split at performed
          · exact addAttackAndHealthToEmo_statsWrites performed
          · cases performed
            exact .refl
      | none => exact addAttackAndHealthToEmo_statsWrites performed
  | none =>
      cases performed
      exact .refl

theorem increaseStatsOfMenagerieLoop_statsWrites {actionEmoId typCount attack health : Nat}
    {emoIds : List Nat} {typs : List Typ} {state after : ShopState}
    (performed : increaseStatsOfMenagerieLoop env actionEmoId typCount attack health emoIds typs
      state = .ok after) : StatsWrites env state after := by
  induction emoIds generalizing typs state with
  | nil =>
      cases performed
      exact .refl
  | cons id rest ih =>
      simp only [increaseStatsOfMenagerieLoop] at performed
      split at performed
      · exact ih performed
      · simp only [Result.bind_eq_ok_iff] at performed
        obtain ⟨_, _, _, _, performed⟩ := performed
        split at performed
        · exact ih performed
        · simp only [Result.bind_eq_ok_iff] at performed
          obtain ⟨middle, changed, performed⟩ := performed
          have first := addAttackAndHealthToEmo_statsWrites changed
          split at performed
          · cases performed
            exact first
          · exact first.trans (ih performed)

theorem increaseStatsOfMenagerie_statsWrites {rng next : env.sampler.Rng}
    {actionEmoId typCount attack health : Nat} {state after : ShopState}
    (performed : increaseStatsOfMenagerie env rng actionEmoId typCount attack health state =
      .ok (next, after)) : StatsWrites env state after := by
  simp only [increaseStatsOfMenagerie, Result.bind_eq_ok_iff, Result.pure_eq_ok_iff,
    Prod.mk.injEq] at performed
  obtain ⟨_, _, _, changed, _, rfl⟩ := performed
  exact increaseStatsOfMenagerieLoop_statsWrites changed

/-! ## Additions -/

def Task.pendingTriple? {sampler : Sampler} : Task sampler → Option Nat
  | .processTriple newEmoId => some newEmoId
  | _ => none

/-- The new emos that are still to be checked for a triple, the next one
first. -/
def pendingTriples {sampler : Sampler} (stack : List (Task sampler)) : List Nat :=
  stack.filterMap Task.pendingTriple?

@[simp] theorem pendingTriples_append {sampler : Sampler} (first second : List (Task sampler)) :
    pendingTriples (first ++ second) = pendingTriples first ++ pendingTriples second :=
  List.filterMap_append

theorem pendingTriples_eq_nil {sampler : Sampler} {stack : List (Task sampler)}
    (others : ∀ task ∈ stack, task.pendingTriple? = none) : pendingTriples stack = [] :=
  List.filterMap_eq_nil_iff.mpr others

/-- `add_emo_with_board_emo` up to its calls.  A new emo that is no triple
waits for its check. -/
structure Addition (newEmo : ShopBoardEmo) (before : ShopBoard) (after : ShopState)
    (calls : List (Task env.sampler)) : Prop where
  room : before.countEmos < boardEmoMaxCount
  inserted : ∃ index ≤ before.length, after.board = before.insertIdx index newEmo
  pending : pendingTriples calls = if newEmo.attributes.isTriple then [] else [newEmo.id]

theorem callEmoAdditionAbilities_pending {newEmoId : Nat} {state : ShopState}
    {calls : List (Task env.sampler)}
    (called : callEmoAdditionAbilities env newEmoId state = .ok calls) :
    pendingTriples calls = [] := by
  simp only [callEmoAdditionAbilities, Result.bind_eq_ok_iff, Result.pure_eq_ok_iff] at called
  obtain ⟨_, _, _, _, rfl⟩ := called
  refine pendingTriples_eq_nil fun task member => ?_
  rcases List.mem_append.mp member with own | board
  · obtain ⟨_, _, rfl⟩ := List.mem_map.mp own
    rfl
  · rw [List.mem_singleton.mp board]
    rfl

theorem addEmoWithBoardEmo_addition {newEmo : ShopBoardEmo} {emoIndex : Nat}
    {state after : ShopState} {calls : List (Task env.sampler)}
    (added : addEmoWithBoardEmo env newEmo emoIndex state = .ok (calls, after)) :
    Addition newEmo state.board after calls ∧ after.generatedIds = state.generatedIds := by
  simp only [addEmoWithBoardEmo, Result.bind_eq_ok_iff, ensure_eq_ok_iff, Result.pure_eq_ok_iff,
    Prod.mk.injEq] at added
  obtain ⟨_, room, _, bound, additionCalls, called, rfl, rfl⟩ := added
  have inside : state.board.countEmos ≤ state.board.length := Nat.mod_le ..
  refine ⟨⟨room, ⟨emoIndex, by omega, by simp⟩, ?_⟩, by simp⟩
  rw [pendingTriples_append, callEmoAdditionAbilities_pending called, List.nil_append]
  split <;> rfl

/-- `add_emo` up to its calls. -/
theorem addEmoCalls_addition {mtcEmoIds : List Nat} {baseId emoIndex : Nat} {isTriple : Bool}
    {state after : ShopState} {calls : List (Task env.sampler)}
    (added : addEmoCalls env mtcEmoIds baseId isTriple emoIndex state = .ok (calls, after)) :
    ∃ base, env.emoBases baseId = some base ∧
      Addition (.newWithBase state.generatedIds mtcEmoIds base isTriple) state.board after calls ∧
      after.generatedIds = state.generatedIds + 1 := by
  simp only [addEmoCalls, Result.bind_eq_ok_iff, Emo.Bases.find_eq_ok_iff] at added
  obtain ⟨base, found, added⟩ := added
  exact ⟨base, found, addEmoWithBoardEmo_addition added⟩

/-! ## Merges -/

theorem removeTripleEmo_filter (holds : ShopBoardEmo → Bool) (board rest : ShopBoard)
    (collected : List ShopBoardEmo) :
    ((board.zipIdx.filter fun (emo, _) => holds emo).map Prod.snd).reverse.foldlM removeTripleEmo
      (collected, board ++ rest) =
    .ok (collected ++ (board.filter holds).reverse, board.filter (fun emo => !holds emo) ++ rest)
    := by
  induction board using List.reverseRecOn generalizing rest collected with
  | nil => simp [pure, Except.pure]
  | append_singleton board last ih =>
      rw [List.zipIdx_append, List.filter_append, List.map_append, List.reverse_append,
        List.foldlM_append]
      cases held : holds last with
      | true =>
          have removed : removeTripleEmo (collected, board ++ [last] ++ rest) board.length =
              .ok (collected ++ [last], board ++ rest) := by
            simp [removeTripleEmo, List.eraseIdx_append_of_length_le, pure, Except.pure, okOr,
              bind, Except.bind]
          have first : [board.length].foldlM removeTripleEmo (collected, board ++ [last] ++ rest) =
              .ok (collected ++ [last], board ++ rest) := by
            rw [List.foldlM_cons, removed]
            rfl
          simpa [held, bind, Except.bind] using
            (congrArg (· >>= fun state => List.foldlM removeTripleEmo state
              ((board.zipIdx.filter fun (emo, _) => holds emo).map Prod.snd).reverse) first).trans
              (ih rest (collected ++ [last]))
      | false =>
          have kept := ih (last :: rest) collected
          simpa [held, bind, Except.bind, pure, Except.pure] using kept

/-- Removing the indexes of the emos with a property removes these emos. -/
theorem removeTripleEmos_filter (holds : ShopBoardEmo → Bool) (board : ShopBoard) :
    removeTripleEmos board ((board.zipIdx.filter fun (emo, _) => holds emo).map Prod.snd) =
      .ok (board.filter holds, board.filter fun emo => !holds emo) := by
  have removed := removeTripleEmo_filter holds board [] []
  rw [List.append_nil] at removed
  simp [removeTripleEmos, removed, bind, Except.bind, pure, Except.pure]

/-- `build_triple_emo` -/
structure Triple (env : Env) (generatedIds : Nat) (sources : List ShopBoardEmo)
    (targetBaseId : Nat) (triple : ShopBoardEmo) : Prop where
  id : triple.id = generateShopBoardEmoId generatedIds
  mtcEmoIds : triple.mtcEmoIds = sources.flatMap ShopBoardEmo.mtcEmoIds
  isTriple : triple.attributes.isTriple = true
  base : ∃ base, env.emoBases targetBaseId = some base ∧ triple.baseId = base.id ∧
    triple.attributes.abilities = buildTripleAbilities base.abilities sources

theorem buildTripleEmo_triple {generatedIds targetBaseId : Nat} {sources : List ShopBoardEmo}
    {triple : ShopBoardEmo}
    (built : buildTripleEmo env generatedIds sources targetBaseId = .ok triple) :
    Triple env generatedIds sources targetBaseId triple := by
  simp only [buildTripleEmo, Result.bind_eq_ok_iff, Result.pure_eq_ok_iff,
    Emo.Bases.find_eq_ok_iff] at built
  obtain ⟨base, found, _, _, rfl⟩ := built
  exact ⟨rfl, rfl, rfl, base, found, rfl, rfl⟩

/-- `process_triple` when it finds a triple. -/
structure Merge (env : Env) (target : ShopBoardEmo) (before after : ShopState)
    (calls : List (Task env.sampler)) : Prop where
  enough : 3 ≤ (before.board.filter (isSameBaseNotTriple target.baseId)).length
  added : ∃ triple,
    Triple env before.generatedIds (before.board.filter (isSameBaseNotTriple target.baseId))
      target.baseId triple ∧
    Addition triple (before.board.filter fun emo => !isSameBaseNotTriple target.baseId emo) after
      calls
  generatedIds : after.generatedIds = before.generatedIds + 1

/-- The new emo is checked: there is a triple, or the board stays. -/
theorem processTriple_cases {newEmoId : Nat} {state after : ShopState}
    {calls : List (Task env.sampler)}
    (processed : processTriple env newEmoId state = .ok (calls, after)) :
    ∃ target newEmoIndex, state.board.getEmoAndIndexById newEmoId = .ok (target, newEmoIndex) ∧
      (Merge env target state after calls ∨
        ((state.board.filter (isSameBaseNotTriple target.baseId)).length < 3 ∧
          calls = [] ∧ after = state)) := by
  simp only [processTriple, ShopBoard.emosWithIndexes, Result.bind_eq_ok_iff, zipU8_eq_ok_iff]
    at processed
  obtain ⟨⟨target, newEmoIndex⟩, found, _, ⟨_, rfl⟩, processed⟩ := processed
  refine ⟨target, newEmoIndex, found, ?_⟩
  rw [Positions.length_filter_zipIdx] at processed
  split at processed
  · rename_i enough
    simp only [removeTripleEmos_filter, Result.bind_eq_ok_iff, Except.ok.injEq,
      Result.pure_eq_ok_iff, Prod.mk.injEq] at processed
    obtain ⟨_, rfl, triple, built, tripleIndex, _, ⟨additionCalls, _⟩, added, rfl, rfl⟩ := processed
    obtain ⟨addition, generated⟩ := addEmoWithBoardEmo_addition added
    refine .inl ⟨enough, ⟨triple, buildTripleEmo_triple built, ?_⟩, by simp [generated]⟩
    simp only [ShopState.addLog_board] at addition
    refine ⟨addition.room, addition.inserted, ?_⟩
    rw [pendingTriples_append, addition.pending]
    exact List.append_nil _
  · rename_i few
    cases processed
    exact .inr ⟨Nat.lt_of_not_le few, rfl, rfl⟩

/-! ## The effect of a task -/

inductive Effect (env : Env) (task : Task env.sampler) (before after : ShopState)
    (calls : List (Task env.sampler)) : Prop where
  | update (unchecked : task.pendingTriple? = none) (update : Update before after)
      (pending : pendingTriples calls = [])
  | settled (newEmoId : Nat) (target : ShopBoardEmo) (checked : task.pendingTriple? = some newEmoId)
      (member : target ∈ before.board) (identified : target.id = newEmoId)
      (few : (before.board.filter (isSameBaseNotTriple target.baseId)).length < 3)
      (pending : calls = []) (same : after = before)
  | addition (base : Base) (baseId : Nat) (isTriple : Bool)
      (unchecked : task.pendingTriple? = none) (found : env.emoBases baseId = some base)
      (addition : Addition (.newWithBase before.generatedIds [] base isTriple) before.board after
        calls)
      (generatedIds : after.generatedIds = before.generatedIds + 1)
  | merge (newEmoId : Nat) (target : ShopBoardEmo) (checked : task.pendingTriple? = some newEmoId)
      (member : target ∈ before.board) (identified : target.id = newEmoId)
      (merge : Merge env target before after calls)

theorem setEmo_effect {actionEmoPointer : EmoPointer} {isTripleAction : Bool} {baseId : Nat}
    {task : Task env.sampler} {state after : ShopState} {calls : List (Task env.sampler)}
    (unchecked : task.pendingTriple? = none)
    (performed : setEmo env actionEmoPointer isTripleAction baseId state = .ok (calls, after)) :
    Effect env task state after calls := by
  simp only [setEmo] at performed
  split at performed
  · simp only [Result.bind_eq_ok_iff, Result.pure_eq_ok_iff, Prod.mk.injEq] at performed
    obtain ⟨index, _, ⟨additionCalls, _⟩, added, rfl, rfl⟩ := performed
    obtain ⟨base, found, addition, generated⟩ := addEmoCalls_addition added
    refine .addition base baseId isTripleAction unchecked found
      ⟨addition.room, addition.inserted, ?_⟩ generated
    rw [pendingTriples_append, addition.pending]
    exact List.append_nil _
  · cases performed
    exact .update unchecked (.refl _) rfl

/-- Every action but `SetEmo` calls nothing, and every other one but
`AddAbility` leaves the abilities. -/
theorem callAbilityAction_cases {action : NormalAction} {actionEmoPointer : EmoPointer}
    {isTripleAction : Bool} {state after : ShopState} {calls : List (Task env.sampler)}
    (performed : callAbilityAction env action actionEmoPointer isTripleAction state =
      .ok (calls, after)) :
    (∃ baseId, action = .setEmo baseId) ∨
      (∃ target ability, action = .addAbility target ability ∧
        addAbility env actionEmoPointer target ability state = .ok after ∧ calls = []) ∨
      ((∀ target ability, action ≠ .addAbility target ability) ∧ StatsWrites env state after ∧
        calls = []) := by
  have of_map {result : Result ShopState}
      (performed : (([], ·) <$> result : Result (Calls env)) = .ok (calls, after)) :
      result = .ok after ∧ calls = [] := by
    simp only [Result.map_eq_ok_iff, Prod.mk.injEq] at performed
    obtain ⟨_, succeeded, rfl, rfl⟩ := performed
    exact ⟨succeeded, rfl⟩
  cases action with
  | setEmo baseId => exact .inl ⟨baseId, rfl⟩
  | increaseStats target attack health =>
      obtain ⟨succeeded, rfl⟩ := of_map performed
      exact .inr (.inr ⟨by simp, addAttackAndHealthToEmos_statsWrites succeeded, rfl⟩)
  | increaseStatsByEmoCount target countCondition attack health =>
      obtain ⟨succeeded, rfl⟩ := of_map performed
      simp only [increaseStatsByEmoCount, Result.bind_eq_ok_iff] at succeeded
      obtain ⟨_, _, succeeded⟩ := succeeded
      exact .inr (.inr ⟨by simp, addAttackAndHealthToEmos_statsWrites succeeded, rfl⟩)
  | increaseStatsByGrade target attack health =>
      obtain ⟨succeeded, rfl⟩ := of_map performed
      simp only [increaseStatsByGrade, Result.bind_eq_ok_iff] at succeeded
      obtain ⟨_, _, _, _, succeeded⟩ := succeeded
      exact .inr (.inr ⟨by simp, addAttackAndHealthToEmos_statsWrites succeeded, rfl⟩)
  | increaseStatsOfAdjacentMenagerie attack health =>
      obtain ⟨succeeded, rfl⟩ := of_map performed
      simp only [increaseStatsOfAdjacentMenagerie, Result.bind_eq_ok_iff] at succeeded
      obtain ⟨⟨_, _⟩, left, right⟩ := succeeded
      exact .inr (.inr ⟨by simp, (increaseStatsOfLeft_statsWrites left).trans
        (increaseStatsOfRight_statsWrites right), rfl⟩)
  | addAbility target ability =>
      obtain ⟨succeeded, rfl⟩ := of_map performed
      exact .inr (.inl ⟨target, ability, rfl, succeeded, rfl⟩)
  | getCoin coin =>
      cases performed
      exact .inr (.inr ⟨by simp, .single ⟨.coin .., rfl⟩, rfl⟩)
  | getCoinByEmoCountDiv countCondition divisor =>
      obtain ⟨succeeded, rfl⟩ := of_map performed
      simp only [getCoinByEmoCountDiv, Result.bind_eq_ok_iff, Result.pure_eq_ok_iff] at succeeded
      obtain ⟨_, _, _, _, rfl⟩ := succeeded
      exact .inr (.inr ⟨by simp, .single ⟨.coin .., rfl⟩, rfl⟩)

/-- Every action but `SetEmo` calls nothing. -/
theorem callAbilityAction_writes {action : NormalAction} {actionEmoPointer : EmoPointer}
    {isTripleAction : Bool} {state after : ShopState} {calls : List (Task env.sampler)}
    (performed : callAbilityAction env action actionEmoPointer isTripleAction state =
      .ok (calls, after)) :
    (∃ baseId, action = .setEmo baseId) ∨ (Writes env state after ∧ calls = []) := by
  rcases callAbilityAction_cases performed with sets | ⟨_, _, _, added, rfl⟩ | ⟨_, writes, rfl⟩
  · exact .inl sets
  · exact .inr ⟨addAbility_writes added, rfl⟩
  · exact .inr ⟨writes.writes, rfl⟩

theorem callAbilityAction_effect {action : NormalAction} {actionEmoPointer : EmoPointer}
    {isTripleAction : Bool} {task : Task env.sampler} {state after : ShopState}
    {calls : List (Task env.sampler)} (unchecked : task.pendingTriple? = none)
    (performed : callAbilityAction env action actionEmoPointer isTripleAction state =
      .ok (calls, after)) : Effect env task state after calls := by
  rcases callAbilityAction_writes performed with ⟨baseId, rfl⟩ | ⟨writes, rfl⟩
  · exact setEmo_effect unchecked performed
  · exact .update unchecked writes.update rfl

/-- The calls of `call_ability_action_as_ally` are actions of the ally. -/
theorem callAbilityActionAsAlly_cases {action : PeriAsAllyAction} {oneselfEmoId : Nat}
    {allyEmoPointer : EmoPointer} {state after : ShopState} {calls : List (Task env.sampler)}
    (performed : callAbilityActionAsAlly env action oneselfEmoId allyEmoPointer state =
      .ok (calls, after)) :
    after = state ∧ ∀ call ∈ calls, ∃ normalAction isTripleAction,
      call = .callAbilityAction normalAction allyEmoPointer isTripleAction := by
  simp only [callAbilityActionAsAlly, Result.bind_eq_ok_iff] at performed
  obtain ⟨oneselfEmo, _, performed⟩ := performed
  cases action with
  | oneselfTripleNormal normalAction =>
      cases performed
      exact ⟨rfl, List.forall_mem_singleton.mpr ⟨normalAction, _, rfl⟩⟩
  | custom customAction =>
      cases customAction
      simp only [triggerSetActions, Result.bind_eq_ok_iff, Result.pure_eq_ok_iff, Prod.mk.injEq]
        at performed
      obtain ⟨allyEmo, _, rfl, rfl⟩ := performed
      refine ⟨rfl, fun call member => ?_⟩
      obtain ⟨normalAction, _, inside⟩ := List.mem_flatMap.mp member
      refine ⟨normalAction, allyEmo.attributes.isTriple, ?_⟩
      split at inside <;> simpa using inside

/-- The loop writes stats, and calls an action and the rest of the loop. -/
theorem callPreAbilities_cases {rng : env.sampler.Rng} {abilities : List (Nat × Pre)}
    {state after : ShopState} {calls : List (Task env.sampler)}
    (performed : callPreAbilities env rng abilities state = .ok (calls, after)) :
    StatsWrites env state after ∧ ∀ call ∈ calls,
      (∃ action emoId, call = .callAbilityActionAsOneself action (.onBoard emoId)) ∨
      ∃ next first rest, abilities = first :: rest ∧ call = .callPreAbilities next rest := by
  cases abilities with
  | nil =>
      cases performed
      exact ⟨.refl, List.forall_mem_nil _⟩
  | cons first rest =>
      obtain ⟨actionEmoId, ability⟩ := first
      cases ability with
      | normal action =>
          cases performed
          refine ⟨.refl, fun call member => ?_⟩
          rcases List.mem_pair.mp member with rfl | rfl
          · exact .inl ⟨action, actionEmoId, rfl⟩
          · exact .inr ⟨rng, _, rest, rfl, rfl⟩
      | random action =>
          cases action
          simp only [callPreAbilities, Result.bind_eq_ok_iff, Result.pure_eq_ok_iff,
            Prod.mk.injEq] at performed
          obtain ⟨⟨next, _⟩, changed, rfl, rfl⟩ := performed
          exact ⟨increaseStatsOfMenagerie_statsWrites changed,
            List.forall_mem_singleton.mpr (.inr ⟨next, _, rest, rfl, rfl⟩)⟩

/-- The calls for a new emo are actions of the emo that has the ability, for
itself or for the new one. -/
theorem callBoardAdditionAbilities_cases {newEmoId : Nat} {newEmoTyp : Typ}
    {isNewEmoTriple : Bool} {state : ShopState} {call : Task env.sampler}
    (member : call ∈ (callBoardAdditionAbilities env newEmoId newEmoTyp isNewEmoTriple state).1) :
    (∃ action abilityEmoId,
      call = .callAbilityActionAsAlly action abilityEmoId (.onBoard newEmoId)) ∨
    ∃ action abilityEmoId, call = .callAbilityActionAsOneself action (.onBoard abilityEmoId) := by
  obtain ⟨⟨abilityEmoId, ability⟩, _, called⟩ := List.mem_filterMap.mp member
  rw [Option.ite_none_left_eq_some] at called
  obtain ⟨_, called⟩ := called
  unfold additionCall? at called
  split at called
  · split at called <;> cases called
    exact .inl ⟨_, abilityEmoId, rfl⟩
  · split at called <;> cases called
    exact .inr ⟨_, abilityEmoId, rfl⟩
  · cases called

theorem perform_effect {task : Task env.sampler} {state after : ShopState}
    {calls : List (Task env.sampler)} (performed : perform env task state = .ok (calls, after)) :
    Effect env task state after calls := by
  cases task with
  | callPreAbilities rng abilities =>
      obtain ⟨writes, origin⟩ := callPreAbilities_cases performed
      refine .update rfl writes.writes.update (pendingTriples_eq_nil fun call member => ?_)
      obtain ⟨_, _, rfl⟩ | ⟨_, _, _, _, rfl⟩ := origin call member <;> rfl
  | callAbilityActionAsOneself action actionEmoPointer =>
      simp only [perform, callAbilityActionAsOneself, Result.bind_eq_ok_iff,
        Result.pure_eq_ok_iff, Prod.mk.injEq] at performed
      obtain ⟨_, _, rfl, rfl⟩ := performed
      exact .update rfl (.refl _) rfl
  | callAbilityActionAsAlly action oneselfEmoId allyEmoPointer =>
      obtain ⟨rfl, origin⟩ := callAbilityActionAsAlly_cases performed
      refine .update rfl (.refl _) (pendingTriples_eq_nil fun call member => ?_)
      obtain ⟨_, _, rfl⟩ := origin call member
      rfl
  | callAbilityAction action actionEmoPointer isTripleAction =>
      exact callAbilityAction_effect rfl performed
  | callBoardAdditionAbilities newEmoId newEmoTyp isNewEmoTriple =>
      cases performed
      refine .update rfl (.refl _) (pendingTriples_eq_nil fun call member => ?_)
      obtain ⟨_, _, rfl⟩ | ⟨_, _, rfl⟩ := callBoardAdditionAbilities_cases member <;> rfl
  | processTriple newEmoId =>
      obtain ⟨target, newEmoIndex, found, outcome⟩ := processTriple_cases performed
      obtain ⟨indexed, identified⟩ := ShopBoard.getEmoAndIndexById_found found
      have member := List.mem_of_getElem? indexed
      rcases outcome with merge | ⟨few, pending, same⟩
      · exact .merge newEmoId target rfl member identified merge
      · exact .settled newEmoId target rfl member identified few pending same
  | setEmoReturn gottenCoin =>
      cases performed
      exact .update rfl ⟨.refl _, rfl⟩ rfl
  | processTripleReturn gottenCoin =>
      cases performed
      exact .update rfl ⟨.refl _, rfl⟩ rfl

end EmojiBattler.Mtc.Shop
