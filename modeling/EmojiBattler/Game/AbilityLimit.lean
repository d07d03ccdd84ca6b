import EmojiBattler.Game.EmoBases
import EmojiBattler.Shop.Performed

/-! # How many abilities an emo of the shop has

An index of an ability is a `u8` in a battle, and a battle gives no ability to
an emo that has 255.  The shop asks for no limit, neither when it adds an
ability nor when it merges emos. -/

namespace EmojiBattler.Mtc.Shop

open EmojiBattler.Emo Sampling CallMachine
open EmojiBattler.Emo.Ability.Shop (NormalAction)

/-- The abilities have indexes in a `u8`. -/
def AbilitiesCounted (emo : ShopBoardEmo) : Prop := emo.attributes.abilities.length ≤ u8Max

def BoardCounted (board : ShopBoard) : Prop := ∀ emo ∈ board, AbilitiesCounted emo

def BasesCounted (emoBases : Bases) : Prop :=
  ∀ id base, emoBases id = some base → base.abilities.length ≤ u8Max

/-- No merge of these bases takes the emo. -/
def Stays (merged : Nat → Prop) (emo : ShopBoardEmo) : Prop :=
  emo.attributes.isTriple = true ∨ ¬ merged emo.baseId

/-- The abilities of all emos that stay have indexes. -/
def StayingCounted (merged : Nat → Prop) (board : ShopBoard) : Prop :=
  ∀ emo ∈ board, Stays merged emo → AbilitiesCounted emo

variable {env : Env} {merged : Nat → Prop}

/-! ## Changes in place -/

theorem Changed.abilities_length_le {before after : ShopBoardEmo} (changed : Changed before after) :
    before.attributes.abilities.length ≤ after.attributes.abilities.length := by
  induction changed with
  | refl => exact Nat.le_refl _
  | tail _ modified ih =>
      cases modified with
      | stats attack health => exact ih
      | ability ability isNew =>
          rw [List.length_append]
          exact Nat.le_add_right_of_le ih

/-- With more merges to come, fewer emos stay. -/
theorem StayingCounted.mono {earlier : Nat → Prop} {board : ShopBoard}
    (counted : StayingCounted earlier board) (later : ∀ baseId, earlier baseId → merged baseId) :
    StayingCounted merged board :=
  fun emo member stays => counted emo member (stays.imp_right (mt (later emo.baseId)))

theorem Changed.stays_iff {before after : ShopBoardEmo} (changed : Changed before after) :
    Stays merged after ↔ Stays merged before := by
  rw [Stays, Stays, changed.isTriple_eq, changed.baseId_eq]

/-- No change in place takes an ability away. -/
theorem StayingCounted.of_changed {before after : ShopBoard} (changed : BoardChanged before after)
    (counted : StayingCounted merged after) : StayingCounted merged before := by
  induction changed with
  | nil => exact List.forall_mem_nil _
  | cons change _ ih =>
      rw [StayingCounted, List.forall_mem_cons] at counted ⊢
      exact ⟨fun stays => Nat.le_trans change.abilities_length_le
        (counted.1 (change.stays_iff.mpr stays)), ih counted.2⟩

/-- Changes that leave all abilities. -/
theorem StayingCounted.of_abilities_eq {before after : ShopBoard}
    (changed : BoardChanged before after)
    (same : (after.map fun emo => emo.attributes.abilities) =
      before.map fun emo => emo.attributes.abilities)
    (counted : StayingCounted merged before) : StayingCounted merged after := by
  refine changed.forall_of_abilities_eq same (fun change abilities holds stays => ?_) counted
  rw [AbilitiesCounted, abilities]
  exact holds (change.stays_iff.mp stays)

theorem stayingCounted_set_iff {board : ShopBoard} {index : Nat} {emo changed : ShopBoardEmo}
    (counted : StayingCounted merged board) (found : board[index]? = some emo) :
    StayingCounted merged (board.set index changed) ↔
      (Stays merged changed → AbilitiesCounted changed) := by
  obtain ⟨bound, _⟩ := List.getElem?_eq_some_iff.mp found
  constructor
  · intro after
    exact after changed (List.mem_set bound changed)
  · intro new other member
    rcases List.mem_or_eq_of_mem_set member with old | rfl
    · exact counted other old
    · exact new

theorem stayingCounted_insertIdx_iff {board : ShopBoard} {index : Nat} {emo : ShopBoardEmo}
    (counted : StayingCounted merged board) (bound : index ≤ board.length) :
    StayingCounted merged (board.insertIdx index emo) ↔
      (Stays merged emo → AbilitiesCounted emo) := by
  simp only [StayingCounted, List.mem_insertIdx bound]
  constructor
  · intro after
    exact after emo (.inl rfl)
  · rintro new other (rfl | old)
    · exact new
    · exact counted other old

/-! ## Adding an ability -/

/-- Whenever the loop of `add_ability` pushes on an emo that stays, the emo has
fewer than 255 abilities. -/
def RoomForAbility (env : Env) (merged : Nat → Prop) (ability : Ability) :
    List Nat → ShopState → Prop
  | [], _ => True
  | id :: rest, state =>
      (∀ emo index, state.board.getEmoMutAndIndexById id = .ok (emo, index) →
        ¬ (isSpecialBattleAbility ability ∧ ability ∈ emo.attributes.abilities) →
          Stays merged emo → emo.attributes.abilities.length < u8Max) ∧
      ∀ middle, addAbilityToEmo env ability state id = .ok middle →
        RoomForAbility env merged ability rest middle

theorem addAbilityToEmo_counted_iff {ability : Ability} {id : Nat} {before after : ShopState}
    (counted : StayingCounted merged before.board)
    (performed : addAbilityToEmo env ability before id = .ok after) :
    StayingCounted merged after.board ↔
      ∀ emo index, before.board.getEmoMutAndIndexById id = .ok (emo, index) →
        ¬ (isSpecialBattleAbility ability ∧ ability ∈ emo.attributes.abilities) →
          Stays merged emo → emo.attributes.abilities.length < u8Max := by
  simp only [addAbilityToEmo, Result.bind_eq_ok_iff] at performed
  obtain ⟨⟨emo, index⟩, located, performed⟩ := performed
  have found := (ShopBoard.getEmoMutAndIndexById_found located).1
  split at performed
  · rename_i present
    cases performed
    refine iff_of_true counted fun other position again new => ?_
    cases located.symm.trans again
    exact absurd present new
  · rename_i new
    cases performed
    simp only [ShopState.setEmoAt, ShopState.addLog_board]
    rw [stayingCounted_set_iff counted found]
    simp only [AbilitiesCounted, List.length_append, List.length_singleton]
    constructor
    · intro room other position again _
      cases located.symm.trans again
      exact room
    · intro room
      exact room emo index located new

/-- Abilities are only added, so one emo too many of them stays so. -/
theorem addAbilities_counted_iff {ability : Ability} {ids : List Nat} {before after : ShopState}
    (counted : StayingCounted merged before.board)
    (performed : ids.foldlM (addAbilityToEmo env ability) before = .ok after) :
    StayingCounted merged after.board ↔ RoomForAbility env merged ability ids before := by
  induction ids generalizing before with
  | nil =>
      cases performed
      exact iff_of_true counted trivial
  | cons id rest ih =>
      rw [List.foldlM_cons, Result.bind_eq_ok_iff] at performed
      obtain ⟨middle, first, performed⟩ := performed
      rw [RoomForAbility, ← addAbilityToEmo_counted_iff counted first]
      constructor
      · intro whole
        have here : StayingCounted merged middle.board := whole.of_changed
          (Writes.foldlM addAbilityToEmo_writes performed).update.board
        refine ⟨here, fun other again => ?_⟩
        cases first.symm.trans again
        exact (ih here performed).mp whole
      · rintro ⟨here, room⟩
        exact (ih here performed).mpr (room middle first)

/-! ## Merging emos -/

/-- The abilities of the base and those that the sources bring along are not too
many. -/
def RoomForTriple (base : Base) (sources : List ShopBoardEmo) : Prop :=
  base.abilities.length + (sources.map fun emo =>
    (emo.attributes.abilities.filter fun ability => ability ∉ base.abilities).length).sum ≤ u8Max

theorem buildTripleAbilities_length {baseAbilities : List Ability} {sources : List ShopBoardEmo} :
    (buildTripleAbilities baseAbilities sources).length = baseAbilities.length +
      (sources.map fun emo =>
        (emo.attributes.abilities.filter fun ability => ability ∉ baseAbilities).length).sum := by
  rw [buildTripleAbilities, List.length_append, List.length_flatMap]

/-! ## Tasks -/

/-- Performed with this board, the task merges the emos of the base. -/
def MergesBase {sampler : Sampler} (task : Task sampler) (board : ShopBoard) (baseId : Nat) :
    Prop :=
  match task with
  | .processTriple newEmoId =>
      ∃ target index, board.getEmoAndIndexById newEmoId = .ok (target, index) ∧
        target.baseId = baseId ∧ 3 ≤ (board.filter (isSameBaseNotTriple baseId)).length
  | _ => False

/-- What a task must find to leave no emo with too many abilities, when emos of
these bases are still to be merged. -/
def LeavesCounted (env : Env) (merged : Nat → Prop) (task : Task env.sampler)
    (state : ShopState) : Prop :=
  match task with
  | .callAbilityAction (.addAbility target ability) actionEmoPointer _ =>
      ∀ ids, getEmoIdsByTarget env state.board actionEmoPointer target = .ok ids →
        RoomForAbility env merged ability ids state
  | .processTriple newEmoId =>
      ∀ target index base, state.board.getEmoAndIndexById newEmoId = .ok (target, index) →
        env.emoBases target.baseId = some base →
        3 ≤ (state.board.filter (isSameBaseNotTriple target.baseId)).length →
        RoomForTriple base (state.board.filter (isSameBaseNotTriple target.baseId))
  | _ => True

section Step

variable {task : Task env.sampler} {before after : ShopState} {calls : List (Task env.sampler)}

theorem Addition.counted_iff {newEmo : ShopBoardEmo} {board : ShopBoard}
    (counted : StayingCounted merged board) (addition : Addition newEmo board after calls) :
    StayingCounted merged after.board ↔ (Stays merged newEmo → AbilitiesCounted newEmo) := by
  obtain ⟨index, bound, inserted⟩ := addition.inserted
  rw [inserted]
  exact stayingCounted_insertIdx_iff counted bound

/-- The merged emos are gone, so what stays on the board was to stay before. -/
theorem StayingCounted.filter {earlier : Nat → Prop} {baseId : Nat} {board : ShopBoard}
    (counted : StayingCounted earlier board)
    (later : ∀ otherId, earlier otherId → merged otherId ∨ baseId = otherId) :
    StayingCounted merged (board.filter fun emo => !isSameBaseNotTriple baseId emo) := by
  intro emo member stays
  obtain ⟨member, other⟩ := List.mem_filter.mp member
  refine counted emo member ?_
  cases triple : emo.attributes.isTriple with
  | true => exact .inl triple
  | false =>
      refine .inr fun taken => ?_
      rcases later _ taken with again | same
      · exact (stays.resolve_left (by rw [triple]; decide)) again
      · simp [isSameBaseNotTriple, same, triple] at other

variable {earlier : Nat → Prop}

theorem processTriple_counted_iff {newEmoId : Nat}
    (counted : StayingCounted earlier before.board)
    (later : ∀ baseId, earlier baseId →
      merged baseId ∨ MergesBase (.processTriple newEmoId : Task env.sampler) before.board baseId)
    (processed : processTriple env newEmoId before = .ok (calls, after)) :
    StayingCounted merged after.board ↔
      LeavesCounted env merged (.processTriple newEmoId) before := by
  obtain ⟨target, index, located, outcome⟩ := processTriple_cases processed
  rcases outcome with merge | ⟨few, _, rfl⟩
  · obtain ⟨triple, built, addition⟩ := merge.added
    obtain ⟨base, found, _, abilities⟩ := built.base
    have kept := @StayingCounted.filter merged earlier target.baseId before.board counted
      fun baseId taken => (later baseId taken).imp_right fun ⟨other, _, again, same, _⟩ => by
        cases located.symm.trans again
        exact same
    rw [addition.counted_iff kept, imp_iff_right (.inl built.isTriple), AbilitiesCounted,
      abilities, buildTripleAbilities_length]
    constructor
    · intro room other position otherBase again resolved _
      cases located.symm.trans again
      cases found.symm.trans resolved
      exact room
    · intro room
      exact room target index base located found merge.enough
  · refine iff_of_true (counted.mono fun baseId taken => ?_)
      fun other position base again _ enough => ?_
    · refine (later baseId taken).resolve_right fun ⟨other, _, again, same, enough⟩ => ?_
      cases located.symm.trans again
      rw [← same] at enough
      exact absurd enough (Nat.not_le.mpr few)
    · cases located.symm.trans again
      exact absurd enough (Nat.not_le.mpr few)

theorem leavesCounted_of_not_addAbility {action : NormalAction} {actionEmoPointer : EmoPointer}
    {isTripleAction : Bool} {state : ShopState}
    (other : ∀ target ability, action ≠ .addAbility target ability) :
    LeavesCounted env merged (.callAbilityAction action actionEmoPointer isTripleAction) state := by
  unfold LeavesCounted
  split
  · rename_i target ability _ _ same
    cases same
    exact absurd rfl (other target ability)
  · rename_i same
    cases same
  · trivial

theorem setEmo_counted {actionEmoPointer : EmoPointer} {isTripleAction : Bool} {baseId : Nat}
    (bases : BasesCounted env.emoBases) (counted : StayingCounted merged before.board)
    (performed : setEmo env actionEmoPointer isTripleAction baseId before = .ok (calls, after)) :
    StayingCounted merged after.board := by
  simp only [setEmo] at performed
  split at performed
  · simp only [Result.bind_eq_ok_iff, Result.pure_eq_ok_iff, Prod.mk.injEq] at performed
    obtain ⟨index, _, ⟨additionCalls, _⟩, added, rfl, rfl⟩ := performed
    obtain ⟨base, found, addition, _⟩ := addEmoCalls_addition added
    exact (addition.counted_iff counted).mpr fun _ => bases baseId base found
  · cases performed
    exact counted

theorem callAbilityAction_counted_iff {action : NormalAction} {actionEmoPointer : EmoPointer}
    {isTripleAction : Bool} (bases : BasesCounted env.emoBases)
    (counted : StayingCounted merged before.board)
    (performed : callAbilityAction env action actionEmoPointer isTripleAction before =
      .ok (calls, after)) :
    StayingCounted merged after.board ↔
      LeavesCounted env merged (.callAbilityAction action actionEmoPointer isTripleAction)
        before := by
  rcases callAbilityAction_cases performed with ⟨baseId, rfl⟩ | ⟨target, ability, rfl, added, _⟩ |
    ⟨other, writes, _⟩
  · exact iff_of_true (setEmo_counted bases counted performed)
      (leavesCounted_of_not_addAbility nofun)
  · simp only [addAbility, Result.bind_eq_ok_iff] at added
    obtain ⟨ids, targets, added⟩ := added
    rw [addAbilities_counted_iff counted added]
    constructor
    · intro room others again
      cases targets.symm.trans again
      exact room
    · intro room
      exact room ids targets
  · exact iff_of_true (counted.of_abilities_eq writes.writes.update.board writes.abilities_eq)
      (leavesCounted_of_not_addAbility other)

/-- A task keeps the abilities of what stays indexable exactly if it finds room
for those it adds. -/
theorem perform_counted_iff (bases : BasesCounted env.emoBases)
    (counted : StayingCounted earlier before.board)
    (later : ∀ baseId, earlier baseId → merged baseId ∨ MergesBase task before.board baseId)
    (performed : perform env task before = .ok (calls, after)) :
    StayingCounted merged after.board ↔ LeavesCounted env merged task before := by
  cases task with
  | processTriple newEmoId => exact processTriple_counted_iff counted later performed
  | callPreAbilities rng abilities =>
      have writes := (callPreAbilities_cases performed).1
      have kept := counted.mono fun baseId taken => (later baseId taken).resolve_right id
      exact iff_of_true (kept.of_abilities_eq writes.writes.update.board writes.abilities_eq)
        trivial
  | callAbilityActionAsOneself action actionEmoPointer =>
      simp only [perform, callAbilityActionAsOneself, Result.bind_eq_ok_iff,
        Result.pure_eq_ok_iff, Prod.mk.injEq] at performed
      obtain ⟨_, _, _, rfl⟩ := performed
      exact iff_of_true (counted.mono fun baseId taken => (later baseId taken).resolve_right id)
        trivial
  | callAbilityActionAsAlly action oneselfEmoId allyEmoPointer =>
      obtain ⟨rfl, _⟩ := callAbilityActionAsAlly_cases performed
      exact iff_of_true (counted.mono fun baseId taken => (later baseId taken).resolve_right id)
        trivial
  | callAbilityAction action actionEmoPointer isTripleAction =>
      exact callAbilityAction_counted_iff bases
        (counted.mono fun baseId taken => (later baseId taken).resolve_right id) performed
  | callBoardAdditionAbilities _ _ _ | setEmoReturn _ | processTripleReturn _ =>
      cases performed
      exact iff_of_true (counted.mono fun baseId taken => (later baseId taken).resolve_right id)
        trivial

/-- What stays is still on the board after a task, with all its abilities. -/
theorem StayingCounted.of_performed
    (sooner : ∀ baseId, merged baseId ∨ MergesBase task before.board baseId → earlier baseId)
    (performed : perform env task before = .ok (calls, after))
    (counted : StayingCounted merged after.board) : StayingCounted earlier before.board := by
  have less {board : ShopBoard} (counted : StayingCounted merged board) :
      StayingCounted earlier board := counted.mono fun baseId taken => sooner baseId (.inl taken)
  cases perform_effect performed with
  | update _ update _ => exact less (counted.of_changed update.board)
  | settled _ _ _ _ _ _ _ same =>
      rw [same] at counted
      exact less counted
  | addition _ _ _ _ _ addition _ =>
      obtain ⟨index, bound, inserted⟩ := addition.inserted
      refine less fun emo member => counted emo ?_
      rw [inserted]
      exact (List.mem_insertIdx bound).mpr (.inr member)
  | merge newEmoId _ checked _ _ _ =>
      cases task with
      | processTriple otherId =>
          obtain ⟨target, index, located, merge | ⟨_, _, rfl⟩⟩ := processTriple_cases performed
          · obtain ⟨triple, _, addition⟩ := merge.added
            obtain ⟨position, bound, inserted⟩ := addition.inserted
            refine fun emo member stays => counted emo ?_ ?_
            · rw [inserted]
              refine (List.mem_insertIdx bound).mpr (.inr (List.mem_filter.mpr ⟨member, ?_⟩))
              rcases stays with triple | other
              · simp [isSameBaseNotTriple, triple]
              · have different : target.baseId ≠ emo.baseId := fun same =>
                  other (sooner _ (.inr ⟨target, index, located, same, same ▸ merge.enough⟩))
                simp [isSameBaseNotTriple, different]
            · exact stays.imp_right (mt fun taken => sooner _ (.inl taken))
          · exact less counted
      | _ => cases checked

end Step

/-! ## Actions -/

theorem ActionCalls.counted {state : ShopState} {calls : Calls env}
    (action : ActionCalls env state calls) (bases : BasesCounted env.emoBases)
    (counted : BoardCounted state.board) : BoardCounted calls.2.board := by
  cases action with
  | start seed => exact counted
  | sell sold =>
      simp only [sellEmoCalls, Result.bind_eq_ok_iff, Result.pure_eq_ok_iff] at sold
      obtain ⟨_, _, emo, _, rfl⟩ := sold
      simp only [ShopState.addLog_board]
      exact fun other member => counted other (List.mem_of_mem_eraseIdx member)
  | @add mtcEmoIds baseId emoIndex isTriple calls added =>
      obtain ⟨base, found, addition, _⟩ := addEmoCalls_addition added
      obtain ⟨index, bound, inserted⟩ := addition.inserted
      intro emo member
      rw [inserted] at member
      rcases (List.mem_insertIdx bound).mp member with rfl | old
      · exact bases baseId base found
      · exact counted emo old

/-- From this configuration on the run merges emos of the base. -/
def MergedIn (env : Env) (config : Config (Task env.sampler) ShopState) (baseId : Nat) : Prop :=
  ∃ task state, PerformedIn (perform env) config task state ∧ MergesBase task state.board baseId

/-- The merges that are still to come are those of the next task and those after
it. -/
theorem mergedIn_iff {task : Task env.sampler} {rest calls : List (Task env.sampler)}
    {state after : ShopState} {baseId : Nat}
    (performed : perform env task state = .ok (calls, after)) :
    MergedIn env ⟨task :: rest, state⟩ baseId ↔
      MergedIn env ⟨calls ++ rest, after⟩ baseId ∨ MergesBase task state.board baseId := by
  constructor
  · rintro ⟨other, middle, ⟨waiting, reached⟩, merges⟩
    rcases Relation.ReflTransGen.cases_head reached with same | ⟨next, step, later⟩
    · cases same
      exact .inr merges
    · cases step.deterministic (.call performed)
      exact .inl ⟨other, middle, ⟨waiting, later⟩, merges⟩
  · rintro (⟨other, middle, ⟨waiting, later⟩, merges⟩ | merges)
    · exact ⟨other, middle, ⟨waiting, .head (.call performed) later⟩, merges⟩
    · exact ⟨task, state, ⟨rest, .refl⟩, merges⟩

theorem stayingCounted_at_end_iff {state : ShopState} :
    StayingCounted (MergedIn env ⟨[], state⟩) state.board ↔ BoardCounted state.board := by
  refine forall₂_congr fun emo _ => imp_iff_right (.inr ?_)
  rintro ⟨task, middle, ⟨rest, reached⟩, _⟩
  rcases Relation.ReflTransGen.cases_head reached with same | ⟨_, step, _⟩
  · cases same
  · cases step

/-- `start_shop`, `add_emo` and `sell_emo` leave all emos with indexable
abilities exactly if every ability that is added to an emo which stays to the
end finds room, and every triple has room for the abilities of its sources. -/
theorem abilities_indexable_iff {state after : ShopState} {calls : Calls env} {fuel : Nat}
    (bases : BasesCounted env.emoBases) (counted : BoardCounted state.board)
    (action : ActionCalls env state calls) (performed : runCalls env fuel calls = pure after) :
    BoardCounted after.board ↔
      ∀ task rest middle calls' next,
        Reaches (perform env) ⟨calls.1, calls.2⟩ ⟨task :: rest, middle⟩ →
        perform env task middle = .ok (calls', next) →
        LeavesCounted env (MergedIn env ⟨calls' ++ rest, next⟩) task middle := by
  rw [← stayingCounted_at_end_iff]
  exact @Returns.property_iff _ _ _ (perform env)
    (fun task state next => LeavesCounted env (MergedIn env next) task state)
    (fun config => StayingCounted (MergedIn env config) config.state.board) _ _
    (fun emo member _ => action.counted bases counted emo member)
    (fun holds performed => perform_counted_iff bases holds
      (fun baseId => (mergedIn_iff performed).mp) performed)
    (fun lost performed kept => lost (kept.of_performed
      (fun baseId => (mergedIn_iff performed).mpr) performed))
    (run_ok_returns performed)

/-! ## Gifts

An emo is given no special ability that it has already. -/

/-- With all gifts that are not among them yet. -/
def withGifts (gifts abilities : List Ability) : List Ability :=
  abilities ++ gifts.filter (· ∉ abilities)

/-- A whole board of emos with these abilities can be merged, and the triple be
given all gifts. -/
def RoomAsSource (gifts : List Ability) (base : Base) (abilities : List Ability) : Prop :=
  base.abilities.length + gifts.length +
    boardEmoMaxCount * ((withGifts gifts abilities).filter (· ∉ base.abilities)).length ≤ u8Max

/-- The actions in play add special abilities of this list only, and all emos
have room for them. -/
structure RoomForGifts (bases : Bases) (board : ShopBoard) (roots : NormalAction → Prop)
    (gifts : List Ability) : Prop where
  added : ∀ target ability, InPlay bases board roots (.acts (.addAbility target ability)) →
    isSpecialBattleAbility ability = true ∧ ability ∈ gifts
  emos : ∀ emo ∈ board, (withGifts gifts emo.attributes.abilities).length ≤ u8Max
  /-- Those that can be merged. -/
  sources : ∀ emo ∈ board, InPlay bases board roots (.acts (.setEmo emo.baseId)) →
    emo.attributes.isTriple = false → ∀ base, bases emo.baseId = some base →
      RoomAsSource gifts base emo.attributes.abilities
  newEmos : ∀ baseId base, InPlay bases board roots (.acts (.setEmo baseId)) →
    bases baseId = some base → RoomAsSource gifts base base.abilities

/-- The emo has room for all gifts, also as a source of a triple. -/
structure Gifted (bases : Bases) (start : ShopBoard) (roots : NormalAction → Prop)
    (gifts : List Ability) (emo : ShopBoardEmo) : Prop where
  owns : ∀ ability ∈ emo.attributes.abilities,
    InPlay bases start roots (.owns emo.baseId emo.attributes.isTriple ability)
  room : (withGifts gifts emo.attributes.abilities).length ≤ u8Max
  source : InPlay bases start roots (.acts (.setEmo emo.baseId)) →
    emo.attributes.isTriple = false → ∀ base, bases emo.baseId = some base →
      RoomAsSource gifts base emo.attributes.abilities

section Gifts

variable {gifts abilities : List Ability} {gift : Ability}

theorem withGifts_length_le :
    (withGifts gifts abilities).length ≤ abilities.length + gifts.length := by
  rw [withGifts, List.length_append]
  exact Nat.add_le_add_left (List.length_filter_le _ _) _

theorem cons_filter_ne_subperm (member : gift ∈ gifts) :
    (gift :: gifts.filter (· ≠ gift)).Subperm gifts := by
  have once := List.perm_cons_erase member
  have others : (gifts.filter (· ≠ gift)).Subperm (gifts.erase gift) := by
    have same := once.filter (· ≠ gift)
    rw [List.filter_cons_of_neg (by simp)] at same
    exact same.subperm.trans List.filter_sublist.subperm
  exact ((List.subperm_cons gift).mpr others).trans once.symm.subperm

/-- A gift that is received is none any more. -/
theorem withGifts_subperm (isGift : gift ∈ gifts) (isNew : gift ∉ abilities) :
    (withGifts gifts (abilities ++ [gift])).Subperm (withGifts gifts abilities) := by
  have rest : gifts.filter (· ∉ abilities ++ [gift]) =
      (gifts.filter (· ∉ abilities)).filter (· ≠ gift) := by
    rw [List.filter_filter]
    refine List.filter_congr fun ability _ => ?_
    simp [and_comm]
  have member : gift ∈ gifts.filter (· ∉ abilities) :=
    List.mem_filter.mpr ⟨isGift, decide_eq_true isNew⟩
  rw [withGifts, withGifts, rest, List.append_assoc]
  exact (List.subperm_append_left abilities).mpr (cons_filter_ne_subperm member)

theorem RoomAsSource.received {base : Base} (room : RoomAsSource gifts base abilities)
    (isGift : gift ∈ gifts) (isNew : gift ∉ abilities) :
    RoomAsSource gifts base (abilities ++ [gift]) := by
  have fewer := ((withGifts_subperm isGift isNew).filter (· ∉ base.abilities)).length_le
  exact Nat.le_trans (Nat.add_le_add_left (Nat.mul_le_mul_left _ fewer) _) room

theorem Triple.gifted {start : ShopBoard} {roots : NormalAction → Prop} {generatedIds baseId : Nat}
    {sources : List ShopBoardEmo} {triple : ShopBoardEmo} (keyed : KeyedBases env.emoBases)
    (sets : InPlay env.emoBases start roots (.acts (.setEmo baseId)))
    (few : sources.length ≤ boardEmoMaxCount)
    (given : ∀ emo ∈ sources, Gifted env.emoBases start roots gifts emo ∧ emo.baseId = baseId ∧
      emo.attributes.isTriple = false)
    (room : ∀ base, env.emoBases baseId = some base → RoomAsSource gifts base base.abilities)
    (built : Triple env generatedIds sources baseId triple) :
    Gifted env.emoBases start roots gifts triple := by
  obtain ⟨base, found, _, abilities⟩ := built.base
  refine ⟨built.owns keyed sets (fun emo source => (given emo source).2)
    fun emo source => (given emo source).1.owns, ?_, fun _ notTriple => ?_⟩
  · -- The gifts that the sources still lacked are paid for with theirs.
    have own : base.abilities.length + gifts.length ≤ u8Max :=
      Nat.le_trans (Nat.le_add_right _ _) (room base found)
    have extras : (sources.map fun emo => (emo.attributes.abilities.filter
        fun ability => ability ∉ base.abilities).length).sum ≤
          u8Max - (base.abilities.length + gifts.length) := by
      refine sum_fits (by rwa [List.length_map]) (List.forall_mem_map.mpr fun emo source => ?_)
      obtain ⟨gifted, same, notTriple⟩ := given emo source
      have fits : RoomAsSource gifts base emo.attributes.abilities :=
        gifted.source (by rwa [same]) notTriple base (by rwa [same])
      have fewer : (emo.attributes.abilities.filter fun ability => ability ∉ base.abilities).length
          ≤ ((withGifts gifts emo.attributes.abilities).filter (· ∉ base.abilities)).length :=
        ((List.sublist_append_left _ _).filter _).length_le
      have paid := Nat.mul_le_mul_left boardEmoMaxCount fewer
      unfold RoomAsSource at fits
      omega
    have whole := @withGifts_length_le gifts triple.attributes.abilities
    rw [abilities, buildTripleAbilities_length] at whole
    rw [abilities]
    omega
  · rw [built.isTriple] at notTriple
    cases notTriple

theorem keptByPlay_gifted {start : ShopBoard} {roots : NormalAction → Prop}
    (keyed : KeyedBases env.emoBases) (room : RoomForGifts env.emoBases start roots gifts) :
    KeptByPlay env start roots (Gifted env.emoBases start roots gifts) where
  owns gifted := gifted.owns
  stats {before after} changed same gifted := by
    obtain ⟨owns, room, source⟩ := gifted
    rw [← changed.baseId_eq, ← changed.isTriple_eq, ← same] at owns source
    rw [← same] at room
    exact ⟨owns, room, source⟩
  ability adds isNew gifted := by
    obtain ⟨special, isGift⟩ := room.added _ _ adds
    refine ⟨fun other listed => ?_, ?_, fun sets notTriple base found => ?_⟩
    · rcases List.mem_append.mp listed with old | new
      · exact gifted.owns other old
      · rw [List.mem_singleton.mp new]
        exact .given adds
    · exact Nat.le_trans (withGifts_subperm isGift (isNew special)).length_le gifted.room
    · exact (gifted.source sets notTriple base found).received isGift (isNew special)
  new generatedIds mtcEmoIds isTriple baseId base sets found := by
    have same := keyed baseId base found
    subst same
    have whole := room.newEmos base.id base sets found
    refine ⟨fun ability listed => .born sets found listed, ?_, fun _ _ other again => ?_⟩
    · exact Nat.le_trans withGifts_length_le (Nat.le_trans (Nat.le_add_right _ _) whole)
    · cases found.symm.trans again
      exact whole
  triple sets few given built :=
    built.gifted keyed sets few given (room.newEmos _ · sets)

end Gifts

theorem RoomForGifts.gifted {start : ShopBoard} {roots : NormalAction → Prop}
    {gifts : List Ability} (room : RoomForGifts env.emoBases start roots gifts) :
    ∀ emo ∈ start, Gifted env.emoBases start roots gifts emo :=
  fun emo member => ⟨fun _ listed => .listed member listed, room.emos emo member,
    room.sources emo member⟩

theorem boardCounted_of_gifted {start : ShopBoard} {roots : NormalAction → Prop}
    {gifts : List Ability} {board : ShopBoard}
    (gifted : ∀ emo ∈ board, Gifted env.emoBases start roots gifts emo) : BoardCounted board :=
  fun emo member => Nat.le_trans (List.sublist_append_left _ _).length_le (gifted emo member).room

/-- Which emos have too many abilities after `start_shop`, `add_emo` and
`sell_emo` depends on where there is room during the run.  Where all abilities
that can be added are special, a look at the board and the bases is enough. -/
theorem abilities_indexable {state : ShopState} {fuel : Nat} (bases : BasesCounted env.emoBases)
    (counted : BoardCounted state.board) :
    (∀ calls after, ActionCalls env state calls → runCalls env fuel calls = pure after →
      (BoardCounted after.board ↔
        ∀ task rest middle calls' next,
          Reaches (perform env) ⟨calls.1, calls.2⟩ ⟨task :: rest, middle⟩ →
          perform env task middle = .ok (calls', next) →
          LeavesCounted env (MergedIn env ⟨calls' ++ rest, next⟩) task middle)) ∧
    ∀ first gifts, KeyedBases env.emoBases → state.board.length ≤ boardEmoMaxCount →
      Fresh first state → first ≤ state.generatedIds →
      state.generatedIds + maxAdditions ≤ first + idCount →
      (∀ seed after, RoomForGifts env.emoBases state.board (PreRoots state.board) gifts →
        startShop env fuel seed state = pure after → BoardCounted after.board) ∧
      (∀ emoIndex sold after, state.board[emoIndex]? = some sold →
        RoomForGifts env.emoBases (state.board.eraseIdx emoIndex) (· ∈ sellActions sold) gifts →
        sellEmo env fuel emoIndex state = pure after → BoardCounted after.board) ∧
      ∀ mtcEmoIds baseId isTriple emoIndex after,
        RoomForGifts env.emoBases state.board (· = .setEmo baseId) gifts →
        addEmo env fuel mtcEmoIds baseId isTriple emoIndex state = pure after →
          BoardCounted after.board := by
  refine ⟨fun calls after action performed =>
      abilities_indexable_iff bases counted action performed,
    fun first gifts keyed small fresh since room => ⟨?_, ?_, ?_⟩⟩
  · intro seed after gifted performed
    exact boardCounted_of_gifted (startShop_kept keyed small fresh since room
      (keptByPlay_gifted keyed gifted) gifted.gifted performed)
  · intro emoIndex sold after found gifted performed
    exact boardCounted_of_gifted (sellEmo_kept keyed small fresh since room found
      (keptByPlay_gifted keyed gifted) gifted.gifted performed)
  · intro mtcEmoIds baseId isTriple emoIndex after gifted performed
    exact boardCounted_of_gifted (addEmo_kept keyed small fresh since room
      (keptByPlay_gifted keyed gifted) gifted.gifted performed)

section Full

/-- A base with 255 abilities, one of which adds a shield when the shop
starts. -/
def fullBase : Base where
  id := 0
  typ := .food
  grade := 1
  attack := 1
  health := 1
  abilities := .shop (.pre (.normal (.addAbility .oneself (.battle (.special .shield))))) ::
    List.replicate 254 (.battle (.special .attractive))

def fullEnv : Env where
  emoBases id := if id = 0 then some fullBase else none
  sampler := .first

/-- One emo of the full base. -/
def fullState : ShopState where
  board := [.newWithBase 0 [0] fullBase false]
  logs := []
  gottenCoin := 0
  generatedIds := 1

theorem length_fullBase : fullBase.abilities.length = 255 := by
  change (_ :: List.replicate 254 _).length = 255
  rw [List.length_cons, List.length_replicate]

theorem basesCounted_fullEnv : BasesCounted fullEnv.emoBases := by
  intro id base found
  simp only [fullEnv] at found
  split at found
  · cases found
    exact Nat.le_of_eq length_fullBase
  · cases found

theorem full_run : ((startShop fullEnv 5 0 fullState).value?.map fun after =>
    after.board.map fun emo => emo.attributes.abilities.length) = some [256] := by
  decide +kernel

/-- The shop starts with 255 abilities and leaves 256. -/
theorem start_shop_exceeds_u8 :
    BasesCounted fullEnv.emoBases ∧ BoardCounted fullState.board ∧
      ∃ after, startShop fullEnv 5 0 fullState = pure after ∧
        ¬ BoardCounted after.board := by
  refine ⟨basesCounted_fullEnv, fun emo member => ?_, ?_⟩
  · rw [List.mem_singleton.mp member]
    exact Nat.le_of_eq length_fullBase
  · obtain ⟨after, value, lengths⟩ := Option.map_eq_some_iff.mp full_run
    refine ⟨after, Fueled.value?_eq_some_iff.mp value, fun counted => ?_⟩
    have bounded : ∀ length ∈ after.board.map fun emo => emo.attributes.abilities.length,
        length ≤ u8Max := by
      rw [List.forall_mem_map]
      exact counted
    rw [lengths] at bounded
    exact absurd (bounded 256 (List.mem_singleton_self _)) (by decide)

/-- Gets a shield when the shop starts and then sets an emo of the base 1. -/
def leaderBase : Base where
  id := 0
  typ := .food
  grade := 1
  attack := 1
  health := 1
  abilities := [.shop (.pre (.normal (.addAbility .oneself (.battle (.special .shield))))),
    .shop (.pre (.normal (.setEmo 1)))]

def ledBase : Base := ⟨1, .food, 1, 1, 1, [.battle (.special .attractive)]⟩

def ledEnv : Env where
  emoBases id := if id = 0 then some leaderBase else if id = 1 then some ledBase else none
  sampler := .first

/-- Two emos of the base 1, one of which has a shield already. -/
def ledState : ShopState where
  board := [.newWithBase 0 [0] leaderBase false, .newWithBase 1 [1] ledBase false,
    ⟨2, [2], 1, ⟨1, 1, [.battle (.special .attractive), .battle (.special .shield)], false⟩⟩]
  logs := []
  gottenCoin := 0
  generatedIds := 3

theorem led_run : ((startShop ledEnv 20 0 ledState).value?.map fun after =>
    after.board.map fun emo =>
      (emo.attributes.isTriple, emo.attributes.abilities.length)) = some [(false, 3), (true, 2)] := by
  decide +kernel

theorem ledEnv_cases {id : Nat} {base : Base} (found : ledEnv.emoBases id = some base) :
    (id = 0 ∧ base = leaderBase) ∨ (id = 1 ∧ base = ledBase) := by
  simp only [ledEnv] at found
  split at found
  · cases found
    exact .inl ⟨‹_›, rfl⟩
  · split at found <;> cases found
    exact .inr ⟨‹_›, rfl⟩

/-- No ability in play answers the arrival of an emo. -/
theorem led_inPlay {happening : Happening}
    (inPlay : InPlay ledEnv.emoBases ledState.board (PreRoots ledState.board) happening) :
    match happening with
    | .acts action =>
        action = .addAbility .oneself (.battle (.special .shield)) ∨ action = .setEmo 1
    | .owns _ _ ability => ∀ peri, ability ≠ .shop (.peri peri) := by
  induction inPlay with
  | root starts =>
      obtain ⟨emoId, listed⟩ := starts
      have pre : ledState.board.getBoardPreAbilities =
          [(0, .normal (.addAbility .oneself (.battle (.special .shield)))),
            (0, .normal (.setEmo 1))] := rfl
      rw [pre, List.mem_pair] at listed
      rcases listed with same | same <;> cases same
      · exact .inl rfl
      · exact .inr rfl
  | listed member listed =>
      have silent : ∀ emo ∈ ledState.board, ∀ ability ∈ emo.attributes.abilities,
          periAbility? ability = none := by decide
      rintro peri rfl
      cases silent _ member _ listed
  | born sets found listed =>
      rcases ledEnv_cases found with ⟨rfl, rfl⟩ | ⟨rfl, rfl⟩
      · have silent : ∀ ability ∈ leaderBase.abilities, periAbility? ability = none := by decide
        rintro peri rfl
        cases silent _ listed
      · rintro peri rfl
        cases List.mem_singleton.mp listed
  | merged _ _ _ ih => exact ih
  | given adds ih =>
      rcases ih with same | same <;> cases same
      rintro peri same
      cases same
  | response _ _ _ responds _ ih =>
      cases responds <;> exact absurd rfl (ih _)

theorem roomForGifts_led : RoomForGifts ledEnv.emoBases ledState.board (PreRoots ledState.board)
    [.battle (.special .shield)] where
  added target ability adds := by
    rcases led_inPlay adds with same | same <;> cases same
    exact ⟨rfl, List.mem_singleton_self _⟩
  emos := by decide
  sources emo member _ _ base found := by
    have room : ∀ emo ∈ ledState.board, ∀ base ∈ [leaderBase, ledBase], emo.baseId = base.id →
        base.abilities.length + 1 + boardEmoMaxCount *
          ((withGifts [.battle (.special .shield)] emo.attributes.abilities).filter
            (· ∉ base.abilities)).length ≤ u8Max := by decide
    rcases ledEnv_cases found with ⟨id, rfl⟩ | ⟨id, rfl⟩
    · exact room emo member leaderBase List.mem_cons_self id
    · exact room emo member ledBase (List.mem_cons_of_mem _ List.mem_cons_self) id
  newEmos baseId base _ found := by
    rcases ledEnv_cases found with ⟨_, rfl⟩ | ⟨_, rfl⟩ <;> unfold RoomAsSource <;> decide

/-- The leader gets a shield and the others are merged, which both find room. -/
theorem abilities_indexable_led :
    ∃ after, startShop ledEnv 20 0 ledState = pure after ∧
      (after.board.map fun emo =>
        (emo.attributes.isTriple, emo.attributes.abilities.length)) = [(false, 3), (true, 2)] ∧
      BoardCounted after.board ∧
      ∀ task rest middle calls next,
        Reaches (perform ledEnv)
          ⟨(startShopCalls ledEnv 0 ledState).1, (startShopCalls ledEnv 0 ledState).2⟩
          ⟨task :: rest, middle⟩ →
        perform ledEnv task middle = .ok (calls, next) →
        LeavesCounted ledEnv (MergedIn ledEnv ⟨calls ++ rest, next⟩) task middle := by
  obtain ⟨after, value, lengths⟩ := Option.map_eq_some_iff.mp led_run
  have performed := Fueled.value?_eq_some_iff.mp value
  have keyed : KeyedBases ledEnv.emoBases := by
    intro id base found
    rcases ledEnv_cases found with ⟨rfl, rfl⟩ | ⟨rfl, rfl⟩ <;> rfl
  have bases : BasesCounted ledEnv.emoBases := by
    intro id base found
    rcases ledEnv_cases found with ⟨rfl, rfl⟩ | ⟨rfl, rfl⟩ <;> decide
  have counted : BoardCounted ledState.board := by
    change ∀ emo ∈ ledState.board, emo.attributes.abilities.length ≤ u8Max
    decide
  have fresh : Fresh 0 ledState := @fresh_of_ids _ _ 3 (by decide) rfl (Nat.le_refl _)
  obtain ⟨returned, inputs⟩ := @abilities_indexable ledEnv ledState 20 bases counted
  have final : BoardCounted after.board :=
    (inputs 0 _ keyed (by decide) fresh (Nat.zero_le _) (by decide)).1 0 after roomForGifts_led
      performed
  exact ⟨after, performed, lengths, final,
    (returned _ after (.start 0) performed).mp final⟩

end Full

end EmojiBattler.Mtc.Shop
