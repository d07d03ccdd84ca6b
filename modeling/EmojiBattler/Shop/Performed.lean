import EmojiBattler.Shop.Steady

/-! # What a cascade performs is in play

Whatever becomes of the emos that waiting tasks speak of, a run only performs
actions in play.  What none of these takes from an emo, every emo keeps. -/

namespace EmojiBattler.Mtc.Shop

open EmojiBattler.Emo Sampling CallMachine Contracts
open EmojiBattler.Emo.Ability (Target)
open EmojiBattler.Emo.Ability.Shop (NormalAction Peri PeriAsAllyAction Pre)

/-! ## Tasks -/

section Carrying

variable (bases : Bases) (start : ShopBoard) (roots : NormalAction → Prop)
variable {sampler : Sampler}

/-- An action in play sets emos of the base. -/
def Settable (baseId : Nat) : Prop :=
  InPlay bases start roots (.acts (.setEmo baseId)) ∧ ∃ base, bases baseId = some base

/-- An emo of the board with this id was set. -/
def WasSet (board : ShopBoard) (emoId : Nat) : Prop :=
  ∀ emo ∈ board, emo.id = emoId → Settable bases start roots emo.baseId

/-- What the task carries is in play, whether its emos are still there or not. -/
def Task.Carries (board : ShopBoard) : Task sampler → Prop
  | .callPreAbilities _ abilities => ∀ emoId action, (emoId, .normal action) ∈ abilities →
      InPlay bases start roots (.acts action)
  | .callAbilityActionAsOneself action _ | .callAbilityAction action _ _
  | .callAbilityActionAsAlly (.oneselfTripleNormal action) _ _ =>
      InPlay bases start roots (.acts action)
  | .callAbilityActionAsAlly (.custom .triggerSetActions) _ allyEmoPointer =>
      ∃ allyEmoId, allyEmoPointer = .onBoard allyEmoId ∧ WasSet bases start roots board allyEmoId
  | .callBoardAdditionAbilities newEmoId newEmoTyp _ =>
      WasSet bases start roots board newEmoId ∧ ∃ baseId base,
        InPlay bases start roots (.acts (.setEmo baseId)) ∧ bases baseId = some base ∧
          base.typ = newEmoTyp
  | .processTriple newEmoId => WasSet bases start roots board newEmoId
  | .setEmoReturn _ | .processTripleReturn _ => True

/-- New emos were set, and the others are as before. -/
def Continues (before after : ShopBoard) : Prop :=
  ∀ emo ∈ after, (∃ old ∈ before, emo.id = old.id ∧ emo.baseId = old.baseId) ∨
    Settable bases start roots emo.baseId

variable {bases start roots}

theorem WasSet.continues {before after : ShopBoard} {emoId : Nat}
    (wasSet : WasSet bases start roots before emoId)
    (continued : Continues bases start roots before after) :
    WasSet bases start roots after emoId := by
  intro emo member same
  rcases continued emo member with ⟨old, present, id, baseId⟩ | new
  · rw [baseId]
    exact wasSet old present (id.symm.trans same)
  · exact new

theorem Task.Carries.continues {before after : ShopBoard} {task : Task sampler}
    (carries : task.Carries bases start roots before)
    (continued : Continues bases start roots before after) :
    task.Carries bases start roots after := by
  cases task with
  | callAbilityActionAsAlly action oneselfEmoId allyEmoPointer =>
      cases action with
      | oneselfTripleNormal action => exact carries
      | custom action =>
          cases action
          obtain ⟨allyEmoId, pointer, wasSet⟩ := carries
          exact ⟨allyEmoId, pointer, wasSet.continues continued⟩
  | callBoardAdditionAbilities newEmoId newEmoTyp isNewEmoTriple =>
      exact ⟨carries.1.continues continued, carries.2⟩
  | processTriple newEmoId => exact WasSet.continues carries continued
  | _ => exact carries

theorem Continues.of_changed {before after : ShopBoard} (changed : BoardChanged before after) :
    Continues bases start roots before after := by
  induction changed with
  | nil => exact List.forall_mem_nil _
  | cons change _ ih =>
      refine List.forall_mem_cons.mpr
        ⟨.inl ⟨_, List.mem_cons_self, change.id_eq, change.baseId_eq⟩, fun emo member => ?_⟩
      refine (ih emo member).imp_left fun old => ?_
      obtain ⟨old, present, same⟩ := old
      exact ⟨old, List.mem_cons_of_mem _ present, same⟩

theorem Continues.insertIdx {before kept : ShopBoard} {newEmo : ShopBoardEmo} {emoIndex : Nat}
    (part : kept.Sublist before) (new : Settable bases start roots newEmo.baseId) :
    Continues bases start roots before (kept.insertIdx emoIndex newEmo) := by
  intro emo member
  rcases List.eq_or_mem_of_mem_insertIdx member with rfl | old
  · exact .inr new
  · exact .inl ⟨emo, part.subset old, rfl, rfl⟩

end Carrying

/-! ## Emos -/

/-- No action in play takes the property from an emo. -/
structure KeptByPlay (env : Env) (start : ShopBoard) (roots : NormalAction → Prop)
    (kept : ShopBoardEmo → Prop) : Prop where
  owns : ∀ {emo : ShopBoardEmo}, kept emo → ∀ ability ∈ emo.attributes.abilities,
    InPlay env.emoBases start roots (.owns emo.baseId emo.attributes.isTriple ability)
  stats : ∀ {before after : ShopBoardEmo}, Changed before after →
    after.attributes.abilities = before.attributes.abilities → kept before → kept after
  ability : ∀ {emo : ShopBoardEmo} {target : Target} {ability : Ability},
    InPlay env.emoBases start roots (.acts (.addAbility target ability)) →
    (isSpecialBattleAbility ability → ability ∉ emo.attributes.abilities) → kept emo →
    kept { emo with attributes :=
      { emo.attributes with abilities := emo.attributes.abilities ++ [ability] } }
  new : ∀ (generatedIds : Nat) (mtcEmoIds : List Nat) (isTriple : Bool) {baseId : Nat}
    {base : Base}, InPlay env.emoBases start roots (.acts (.setEmo baseId)) →
    env.emoBases baseId = some base → kept (.newWithBase generatedIds mtcEmoIds base isTriple)
  triple : ∀ {generatedIds baseId : Nat} {sources : List ShopBoardEmo} {triple : ShopBoardEmo},
    InPlay env.emoBases start roots (.acts (.setEmo baseId)) →
    sources.length ≤ boardEmoMaxCount →
    (∀ emo ∈ sources, kept emo ∧ emo.baseId = baseId ∧ emo.attributes.isTriple = false) →
    Triple env generatedIds sources baseId triple → kept triple

section Playing

variable {env : Env} {start : ShopBoard} {roots : NormalAction → Prop}
variable {kept : ShopBoardEmo → Prop} (plays : KeptByPlay env start roots kept)
variable {task : Task env.sampler} {before after : ShopState} {calls : List (Task env.sampler)}

include plays in
theorem statsWrites_kept (writes : StatsWrites env before after)
    (holds : ∀ emo ∈ before.board, kept emo) : ∀ emo ∈ after.board, kept emo :=
  writes.writes.update.board.forall_of_abilities_eq writes.abilities_eq plays.stats holds

include plays in
theorem addAbilityToEmo_kept {target : Target} {ability : Ability} {id : Nat}
    (adds : InPlay env.emoBases start roots (.acts (.addAbility target ability)))
    (holds : ∀ emo ∈ before.board, kept emo)
    (performed : addAbilityToEmo env ability before id = .ok after) :
    ∀ emo ∈ after.board, kept emo := by
  simp only [addAbilityToEmo, Result.bind_eq_ok_iff] at performed
  obtain ⟨⟨emo, index⟩, located, performed⟩ := performed
  have found := (ShopBoard.getEmoMutAndIndexById_found located).1
  split at performed
  · cases performed
    exact holds
  · rename_i isNew
    cases performed
    simp only [ShopState.setEmoAt, ShopState.addLog_board]
    intro other member
    rcases List.mem_or_eq_of_mem_set member with old | rfl
    · exact holds other old
    · exact plays.ability adds (fun special contained => isNew ⟨special, contained⟩)
        (holds emo (List.mem_of_getElem? found))

include plays in
theorem addAbility_kept {emoPointer : EmoPointer} {target : Target} {ability : Ability}
    (adds : InPlay env.emoBases start roots (.acts (.addAbility target ability)))
    (holds : ∀ emo ∈ before.board, kept emo)
    (performed : addAbility env emoPointer target ability before = .ok after) :
    ∀ emo ∈ after.board, kept emo := by
  simp only [addAbility, Result.bind_eq_ok_iff] at performed
  obtain ⟨ids, _, performed⟩ := performed
  have loop : Meets (fun _ => True) (ids.foldlM (addAbilityToEmo env ability) before)
      fun state => ∀ emo ∈ state.board, kept emo :=
    @Meets.foldlM _ _ _ _ (fun state : ShopState => ∀ emo ∈ state.board, kept emo) _ _ _ holds
      fun id _ state holds => .of_result fun after performed =>
        addAbilityToEmo_kept plays adds holds performed
  exact loop.result performed

/-- What a performed task leaves on the board and to be done. -/
structure Leftover (env : Env) (start : ShopBoard) (roots : NormalAction → Prop)
    (kept : ShopBoardEmo → Prop) (before after : ShopBoard) (calls : List (Task env.sampler)) :
    Prop where
  kept : ∀ emo ∈ after, kept emo
  continues : Continues env.emoBases start roots before after
  calls : ∀ call ∈ calls, call.Carries env.emoBases start roots after

theorem Leftover.of_same (holds : ∀ emo ∈ before.board, kept emo)
    (carried : ∀ call ∈ calls, call.Carries env.emoBases start roots before.board) :
    Leftover env start roots kept before.board before.board calls where
  kept := holds
  continues := .of_changed (.refl _)
  calls := carried

include plays in
theorem Leftover.of_statsWrites (holds : ∀ emo ∈ before.board, kept emo)
    (writes : StatsWrites env before after)
    (carried : ∀ call ∈ calls, call.Carries env.emoBases start roots after.board) :
    Leftover env start roots kept before.board after.board calls where
  kept := statsWrites_kept plays writes holds
  continues := .of_changed writes.writes.update.board
  calls := carried

include plays in
/-- A new emo, after others were taken off the board. -/
theorem plays_arrival {newEmo : ShopBoardEmo} {base : Base} {emoIndex : Nat} {board : ShopBoard}
    {tail : List (Task env.sampler)} (keyed : KeyedBases env.emoBases)
    (distinct : after.board.emoIds.Nodup) (part : board.Sublist before.board)
    (bound : emoIndex ≤ board.length) (inserted : after.board = board.insertIdx emoIndex newEmo)
    (holds : ∀ emo ∈ before.board, kept emo) (new : kept newEmo)
    (sets : InPlay env.emoBases start roots (.acts (.setEmo newEmo.baseId)))
    (found : env.emoBases newEmo.baseId = some base) (returns : ∀ call ∈ tail, call.IsReturn) :
    Leftover env start roots kept before.board after.board
      (arrivalCalls env.sampler newEmo base.typ ++ tripleCheck env.sampler newEmo ++ tail) := by
  have settable : Settable env.emoBases start roots newEmo.baseId := ⟨sets, base, found⟩
  have wasSet : WasSet env.emoBases start roots after.board newEmo.id := by
    intro emo member same
    have present : newEmo ∈ after.board := by
      rw [inserted]
      exact (List.mem_insertIdx bound).mpr (.inl rfl)
    rwa [List.inj_on_of_nodup_map distinct member present same]
  refine ⟨fun emo member => ?_, ?_, fun call made => ?_⟩
  · rw [inserted] at member
    rcases List.eq_or_mem_of_mem_insertIdx member with rfl | old
    · exact new
    · exact holds emo (part.subset old)
  · rw [inserted]
    exact .insertIdx part settable
  · rcases List.mem_append.mp made with made | last
    · rcases List.mem_append.mp made with made | check
      · rcases List.mem_append.mp made with own | board
        · obtain ⟨action, listed, rfl⟩ := List.mem_map.mp own
          exact setAction_inPlay (plays.owns new) keyed sets found listed
        · rw [List.mem_singleton.mp board]
          exact ⟨wasSet, newEmo.baseId, base, sets, found, rfl⟩
      · unfold tripleCheck at check
        split at check
        · cases check
        · rw [List.mem_singleton.mp check]
          exact wasSet
    · cases returns call last <;> trivial

include plays in
theorem addEmoCalls_plays {mtcEmoIds : List Nat} {baseId emoIndex : Nat} {isTriple : Bool}
    {tail : List (Task env.sampler)} (keyed : KeyedBases env.emoBases)
    (distinct : after.board.emoIds.Nodup) (holds : ∀ emo ∈ before.board, kept emo)
    (sets : InPlay env.emoBases start roots (.acts (.setEmo baseId)))
    (returns : ∀ call ∈ tail, call.IsReturn)
    (added : addEmoCalls env mtcEmoIds baseId isTriple emoIndex before = .ok (calls, after)) :
    Leftover env start roots kept before.board after.board (calls ++ tail) := by
  simp only [addEmoCalls, Result.bind_eq_ok_iff, Emo.Bases.find_eq_ok_iff] at added
  obtain ⟨base, found, added⟩ := added
  have same := keyed baseId base found
  subst same
  obtain ⟨bound, inserted, other, again, rfl⟩ := addEmoWithBoardEmo_calls distinct added
  exact plays_arrival plays keyed distinct (.refl _) bound inserted holds
    (plays.new before.generatedIds mtcEmoIds isTriple sets found) sets again returns

include plays in
theorem callPreAbilities_plays {rng : env.sampler.Rng} {abilities : List (Nat × Pre)}
    (holds : ∀ emo ∈ before.board, kept emo)
    (carries : (@Task.callPreAbilities env.sampler rng abilities).Carries env.emoBases start roots
      before.board)
    (performed : callPreAbilities env rng abilities before = .ok (calls, after)) :
    Leftover env start roots kept before.board after.board calls := by
  refine .of_statsWrites plays holds (callPreAbilities_cases performed).1 ?_
  match abilities with
  | [] =>
      cases performed
      exact List.forall_mem_nil _
  | (actionEmoId, .normal action) :: rest =>
      cases performed
      exact List.forall_mem_cons.mpr ⟨carries actionEmoId action List.mem_cons_self,
        List.forall_mem_singleton.mpr fun emoId later member =>
          carries emoId later (List.mem_cons_of_mem _ member)⟩
  | (actionEmoId, .random (.increaseStatsOfMenagerie typCount attack health)) :: rest =>
      simp only [callPreAbilities, Result.bind_eq_ok_iff, Result.pure_eq_ok_iff,
        Prod.mk.injEq] at performed
      obtain ⟨_, _, rfl, _⟩ := performed
      exact List.forall_mem_singleton.mpr fun emoId later member =>
        carries emoId later (List.mem_cons_of_mem _ member)

include plays in
theorem callAbilityAction_plays {action : NormalAction} {emoPointer : EmoPointer}
    {isTripleAction : Bool} (keyed : KeyedBases env.emoBases)
    (distinct : after.board.emoIds.Nodup) (holds : ∀ emo ∈ before.board, kept emo)
    (acts : InPlay env.emoBases start roots (.acts action))
    (performed : callAbilityAction env action emoPointer isTripleAction before =
      .ok (calls, after)) :
    Leftover env start roots kept before.board after.board calls := by
  rcases callAbilityAction_cases performed with ⟨baseId, rfl⟩ |
    ⟨target, ability, rfl, added, rfl⟩ | ⟨_, writes, rfl⟩
  · simp only [callAbilityAction, setEmo] at performed
    split at performed
    · simp only [Result.bind_eq_ok_iff, Result.pure_eq_ok_iff, Prod.mk.injEq] at performed
      obtain ⟨index, _, ⟨additionCalls, _⟩, added, rfl, rfl⟩ := performed
      exact addEmoCalls_plays plays keyed distinct holds acts
        (List.forall_mem_singleton.mpr (.setEmo _)) added
    · cases performed
      exact .of_same holds (List.forall_mem_nil _)
  · exact ⟨addAbility_kept plays acts holds added,
      .of_changed (addAbility_writes added).update.board, List.forall_mem_nil _⟩
  · exact .of_statsWrites plays holds writes (List.forall_mem_nil _)

include plays in
theorem callAbilityActionAsAlly_plays {action : PeriAsAllyAction}
    {oneselfEmoId : Nat} {allyEmoPointer : EmoPointer} (keyed : KeyedBases env.emoBases)
    (holds : ∀ emo ∈ before.board, kept emo)
    (carries : (@Task.callAbilityActionAsAlly env.sampler action oneselfEmoId
      allyEmoPointer).Carries env.emoBases start roots before.board)
    (performed : callAbilityActionAsAlly env action oneselfEmoId allyEmoPointer before =
      .ok (calls, after)) :
    Leftover env start roots kept before.board after.board calls := by
  cases action with
  | oneselfTripleNormal action =>
      simp only [callAbilityActionAsAlly, Result.bind_eq_ok_iff, Result.pure_eq_ok_iff,
        Prod.mk.injEq] at performed
      obtain ⟨_, _, rfl, rfl⟩ := performed
      exact .of_same holds (List.forall_mem_singleton.mpr carries)
  | custom action =>
      cases action
      obtain ⟨allyEmoId, rfl, wasSet⟩ := carries
      simp only [callAbilityActionAsAlly, triggerSetActions, Result.bind_eq_ok_iff,
        Result.pure_eq_ok_iff, Prod.mk.injEq] at performed
      obtain ⟨oneselfEmo, _, allyEmo, looked, rfl, rfl⟩ := performed
      obtain ⟨member, same⟩ := ShopBoard.getEmoById_found looked
      obtain ⟨sets, base, found⟩ := wasSet allyEmo member same
      refine .of_same holds fun call made => ?_
      subst same
      obtain ⟨setAction, own, rfl⟩ := mem_setCalls made
      exact setAction_inPlay (plays.owns (holds allyEmo member)) keyed sets found own

include plays in
theorem callBoardAdditionAbilities_plays {newEmoId : Nat} {newEmoTyp : Typ}
    {isNewEmoTriple : Bool} (holds : ∀ emo ∈ before.board, kept emo)
    (carries : (@Task.callBoardAdditionAbilities env.sampler newEmoId newEmoTyp
      isNewEmoTriple).Carries env.emoBases start roots before.board) :
    Leftover env start roots kept before.board before.board
      (callBoardAdditionAbilities env newEmoId newEmoTyp isNewEmoTriple before).1 := by
  obtain ⟨wasSet, baseId, base, sets, found, rfl⟩ := carries
  refine .of_same holds fun call made => ?_
  obtain ⟨emo, present, peri, has, made⟩ := mem_callBoardAdditionAbilities made
  have owns := plays.owns (holds emo present) _ has
  obtain ⟨typAndTriple, isMatched, ⟨action, rfl, rfl⟩ | ⟨action, rfl, rfl⟩⟩ :=
    additionCall_cases made
  · cases action with
    | oneselfTripleNormal action => exact .response sets found owns (.asAlly isMatched)
    | custom action =>
        cases action
        exact ⟨newEmoId, rfl, wasSet⟩
  · exact .response sets found owns (.asOneself isMatched)

include plays in
theorem processTriple_plays {newEmoId : Nat} (keyed : KeyedBases env.emoBases)
    (small : before.board.length ≤ boardEmoMaxCount) (distinct : after.board.emoIds.Nodup)
    (holds : ∀ emo ∈ before.board, kept emo)
    (wasSet : WasSet env.emoBases start roots before.board newEmoId)
    (performed : processTriple env newEmoId before = .ok (calls, after)) :
    Leftover env start roots kept before.board after.board calls := by
  simp only [processTriple, ShopBoard.emosWithIndexes, Result.bind_eq_ok_iff, zipU8_eq_ok_iff]
    at performed
  obtain ⟨⟨target, newEmoIndex⟩, looked, _, ⟨_, rfl⟩, performed⟩ := performed
  obtain ⟨standing, same⟩ := ShopBoard.getEmoAndIndexById_found looked
  obtain ⟨sets, _⟩ := wasSet target (List.mem_of_getElem? standing) same
  split at performed
  · simp only [removeTripleEmos_filter, Result.bind_eq_ok_iff,
      Except.ok.injEq, Result.pure_eq_ok_iff, Prod.mk.injEq] at performed
    obtain ⟨_, rfl, triple, built, tripleIndex, _, ⟨additionCalls, _⟩, added, rfl, rfl⟩ := performed
    obtain ⟨bound, inserted, base, found, rfl⟩ := addEmoWithBoardEmo_calls distinct added
    simp only [ShopState.addLog_board] at bound inserted
    have merged := buildTripleEmo_triple built
    have new := plays.triple sets (Nat.le_trans (List.length_filter_le _ _) small)
      (fun emo source => ⟨holds emo (mem_sources source).1, (mem_sources source).2⟩) merged
    rw [← merged.baseId_eq keyed] at sets
    exact plays_arrival plays keyed distinct List.filter_sublist bound inserted holds new sets found
      (List.forall_mem_singleton.mpr (.processTriple _))
  · cases performed
    exact .of_same holds (List.forall_mem_nil _)

include plays in
/-- A task in play only calls tasks in play. -/
theorem perform_plays (keyed : KeyedBases env.emoBases)
    (small : before.board.length ≤ boardEmoMaxCount) (distinct : after.board.emoIds.Nodup)
    (holds : ∀ emo ∈ before.board, kept emo)
    (carries : task.Carries env.emoBases start roots before.board)
    (performed : perform env task before = .ok (calls, after)) :
    Leftover env start roots kept before.board after.board calls := by
  cases task with
  | callPreAbilities rng abilities =>
      exact callPreAbilities_plays plays holds carries performed
  | callAbilityActionAsOneself action actionEmoPointer =>
      simp only [perform, callAbilityActionAsOneself, Result.bind_eq_ok_iff,
        Result.pure_eq_ok_iff, Prod.mk.injEq] at performed
      obtain ⟨_, _, rfl, rfl⟩ := performed
      exact .of_same holds (List.forall_mem_singleton.mpr carries)
  | callAbilityActionAsAlly action oneselfEmoId allyEmoPointer =>
      exact callAbilityActionAsAlly_plays plays keyed holds carries performed
  | callAbilityAction action actionEmoPointer isTripleAction =>
      exact callAbilityAction_plays plays keyed distinct holds carries performed
  | callBoardAdditionAbilities newEmoId newEmoTyp isNewEmoTriple =>
      cases performed
      exact callBoardAdditionAbilities_plays plays holds carries
  | processTriple newEmoId =>
      exact processTriple_plays plays keyed small distinct holds carries performed
  | setEmoReturn gottenCoin =>
      cases performed
      exact .of_same holds (List.forall_mem_nil _)
  | processTripleReturn gottenCoin =>
      cases performed
      exact .of_same holds (List.forall_mem_nil _)

end Playing

/-! ## Runs -/

section Runs

variable {env : Env} {start : ShopBoard} {roots : NormalAction → Prop}
variable {kept : ShopBoardEmo → Prop} {first fuel : Nat} {task : Task env.sampler}
variable {state before after : ShopState} {calls rest : List (Task env.sampler)}

/-- What waits is in play, and all emos have the property. -/
structure PlayConfig (env : Env) (start : ShopBoard) (roots : NormalAction → Prop)
    (kept : ShopBoardEmo → Prop) (first : Nat) (config : Config (Task env.sampler) ShopState) :
    Prop where
  supplied : Supplied first config.state
  carries : ∀ task ∈ config.stack, task.Carries env.emoBases start roots config.state.board
  kept : ∀ emo ∈ config.state.board, kept emo

theorem PlayConfig.step (plays : KeptByPlay env start roots kept) (keyed : KeyedBases env.emoBases)
    (config : PlayConfig env start roots kept first ⟨task :: rest, before⟩)
    (performed : perform env task before = .ok (calls, after)) :
    PlayConfig env start roots kept first ⟨calls ++ rest, after⟩ := by
  have supplied := config.supplied.step performed
  obtain ⟨carries, waiting⟩ := List.forall_mem_cons.mp config.carries
  have left := perform_plays plays keyed config.supplied.small supplied.fresh.distinct config.kept
    carries performed
  refine ⟨supplied, fun later member => ?_, left.kept⟩
  rcases List.mem_append.mp member with made | old
  · exact left.calls later made
  · exact (waiting later old).continues left.continues

theorem PlayConfig.returns {calls : Calls env} (plays : KeptByPlay env start roots kept)
    (keyed : KeyedBases env.emoBases)
    (config : PlayConfig env start roots kept first ⟨calls.1, calls.2⟩)
    (performed : runCalls env fuel calls = pure after) : ∀ emo ∈ after.board, kept emo := by
  have last := Reaches.invariant
    (fun holds performed => PlayConfig.step plays keyed holds performed) (run_ok_returns performed)
    config
  exact last.kept

end Runs

/-! ## Actions -/

section Actions

variable {env : Env} {kept : ShopBoardEmo → Prop} {first fuel : Nat} {state after : ShopState}
variable (keyed : KeyedBases env.emoBases) (small : state.board.length ≤ boardEmoMaxCount)
variable (fresh : Fresh first state) (since : first ≤ state.generatedIds)
variable (room : state.generatedIds + maxAdditions ≤ first + idCount)

include keyed small fresh since room in
theorem startShop_kept {seed : Nat}
    (plays : KeptByPlay env state.board (PreRoots state.board) kept)
    (holds : ∀ emo ∈ state.board, kept emo)
    (performed : startShop env fuel seed state = pure after) : ∀ emo ∈ after.board, kept emo := by
  have config : PlayConfig env state.board (PreRoots state.board) kept first
      ⟨(startShopCalls env seed state).1, (startShopCalls env seed state).2⟩ := by
    refine ⟨supplied_of_part small fresh since room (.refl _) rfl, ?_, holds⟩
    exact List.forall_mem_singleton.mpr fun emoId action member => .root ⟨emoId, member⟩
  exact config.returns plays keyed performed

include keyed small fresh since room in
theorem sellEmo_kept {emoIndex : Nat} {sold : ShopBoardEmo}
    (found : state.board[emoIndex]? = some sold)
    (plays : KeptByPlay env (state.board.eraseIdx emoIndex) (· ∈ sellActions sold) kept)
    (holds : ∀ emo ∈ state.board.eraseIdx emoIndex, kept emo)
    (performed : sellEmo env fuel emoIndex state = pure after) :
    ∀ emo ∈ after.board, kept emo := by
  rw [sellEmo, Fueled.bind_eq_pure_iff] at performed
  obtain ⟨⟨stack, started⟩, called, performed⟩ := performed
  rw [Fueled.of_eq_pure_iff] at called
  obtain ⟨board, generatedIds, _⟩ := sellEmoCalls_removal called
  have made := sellEmoCalls_stack found called
  subst made
  have supplied := supplied_of_part small fresh since room
    (board ▸ List.eraseIdx_sublist state.board emoIndex) generatedIds
  rw [← board] at plays holds
  have config : PlayConfig env started.board (· ∈ sellActions sold) kept first
      ⟨(sellActions sold).map fun action =>
        .callAbilityActionAsOneself action (.removed sold emoIndex), started⟩ :=
    ⟨supplied, List.forall_mem_map.mpr fun action member => .root member, holds⟩
  exact config.returns plays keyed performed

include keyed small fresh since room in
theorem addEmo_kept {mtcEmoIds : List Nat} {baseId emoIndex : Nat} {isTriple : Bool}
    (plays : KeptByPlay env state.board (· = .setEmo baseId) kept)
    (holds : ∀ emo ∈ state.board, kept emo)
    (performed : addEmo env fuel mtcEmoIds baseId isTriple emoIndex state = pure after) :
    ∀ emo ∈ after.board, kept emo := by
  rw [addEmo, Fueled.bind_eq_pure_iff] at performed
  obtain ⟨⟨stack, started⟩, called, performed⟩ := performed
  rw [Fueled.of_eq_pure_iff] at called
  obtain ⟨base, found, addition, generatedIds⟩ := addEmoCalls_addition called
  have supplied := (supplied_of_part small fresh since room (.refl _) rfl).addition addition
    generatedIds
  have left := addEmoCalls_plays plays keyed supplied.fresh.distinct holds (.root rfl)
    (List.forall_mem_nil _) called
  rw [List.append_nil] at left
  have config : PlayConfig env state.board (· = .setEmo baseId) kept first ⟨stack, started⟩ :=
    ⟨supplied, left.calls, left.kept⟩
  exact config.returns plays keyed performed

end Actions

end EmojiBattler.Mtc.Shop
