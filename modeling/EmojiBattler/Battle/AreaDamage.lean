import EmojiBattler.Library.Keyed
import EmojiBattler.Battle.Invariant

/-! # Damage to all emos of a board

The loop of `damage_all_emos` runs over the ids that it collects before its
first hit.  Everything that a hit calls runs before the next id is looked up. -/

namespace EmojiBattler.Mtc.Battle

open EmojiBattler.Emo CallMachine Numbering Positions

variable {env : Env} {playerIndex : PlayerIndex} {damage first : Nat}

/-! ## Ids that stay apart -/

/-- The emos of both boards have different ids, generated since the generator
stood at `first`. -/
structure Apart (first : Nat) (state : St env) : Prop where
  distinct : state.boards.allIds.Nodup
  issued : ∀ id ∈ state.boards.allIds, Issued idCount first state.generatedIds id
  start : first ≤ state.generatedIds

theorem BattleBoards.mem_allIds {boards : BattleBoards} {id : Nat}
    (member : id ∈ boards.ids playerIndex) : id ∈ boards.allIds := by
  cases playerIndex with
  | zero => exact List.mem_append_left _ member
  | one => exact List.mem_append_right _ member

theorem Apart.ids_nodup {state : St env} (apart : Apart first state) (playerIndex : PlayerIndex) :
    (state.boards.ids playerIndex).Nodup := by
  have distinct := List.nodup_append.mp apart.distinct
  cases playerIndex with
  | zero => exact distinct.1
  | one => exact distinct.2.1

section Effect

variable {added : Option Ability.Battle} {before after : St env}

theorem Effect.generatedIds_le (effect : Effect env added before after) :
    before.generatedIds ≤ after.generatedIds := by
  cases effect with
  | update update => exact update.generatedIds.ge
  | noRoom _ generatedIds => omega
  | insertion inserted => exact inserted.generatedIds.symm ▸ Nat.le_succ _
  | removal removed => exact removed.generatedIds.ge

/-- The id of a new emo is none of those generated before it. -/
theorem Insertion.ne_id {other : PlayerIndex} {position id : Nat} {emo : BattleEmo}
    (inserted : Insertion env other position emo before after)
    (issued : Issued idCount first before.generatedIds id)
    (few : after.generatedIds ≤ first + idCount) : emo.id ≠ id := by
  rw [inserted.generatedIds] at few
  rw [inserted.id]
  exact issued.ne_next few

theorem Effect.apart (effect : Effect env added before after) (apart : Apart first before)
    (few : after.generatedIds ≤ first + idCount) : Apart first after := by
  have issued : ∀ id ∈ before.boards.allIds, Issued idCount first after.generatedIds id :=
    fun id member => (apart.issued id member).mono effect.generatedIds_le
  have start := Nat.le_trans apart.start effect.generatedIds_le
  cases effect with
  | update update =>
      have same : after.boards.allIds = before.boards.allIds := by
        rw [BattleBoards.allIds, update.boards.ids_eq, update.boards.ids_eq]
        rfl
      exact ⟨same ▸ apart.distinct, same ▸ issued, start⟩
  | noRoom boards => exact ⟨boards ▸ apart.distinct, boards ▸ issued, start⟩
  | @insertion other position emo inserted =>
      rw [inserted.generatedIds] at few
      constructor
      · rw [inserted.boards]
        exact BattleBoards.nodup_allIds_insertIdx apart.distinct apart.issued inserted.bound
          inserted.id few
      · intro id member
        rw [inserted.boards] at member
        have new := BattleBoards.allIds_insertIdx emo inserted.bound
        rcases List.mem_cons.mp (new.mem_iff.mp member) with rfl | old
        · rw [inserted.id, inserted.generatedIds]
          exact .next apart.start
        · exact issued id old
      · exact start
  | removal removed =>
      have fewer : after.boards.allIds.Sublist before.boards.allIds := by
        rw [removed.boards]
        exact BattleBoards.allIds_eraseIdx _ _ _
      exact ⟨apart.distinct.sublist fewer, fun id member => issued id (fewer.subset member), start⟩

/-- An id that was generated and is not on a board does not come onto it. -/
theorem Effect.notMem_ids (effect : Effect env added before after) {id : Nat}
    (issued : Issued idCount first before.generatedIds id)
    (absent : id ∉ before.boards.ids playerIndex)
    (few : after.generatedIds ≤ first + idCount) : id ∉ after.boards.ids playerIndex := by
  cases effect with
  | update update => rwa [update.boards.ids_eq]
  | noRoom boards => rwa [boards]
  | @insertion other position emo inserted =>
      by_cases same : playerIndex = other
      · subst same
        rw [inserted.ids_eq]
        intro member
        rcases List.eq_or_mem_of_mem_insertIdx member with new | old
        · exact inserted.ne_id issued few new.symm
        · exact absent old
      · rwa [inserted.ids_of_ne same]
  | @removal other position removed =>
      by_cases same : playerIndex = other
      · subst same
        rw [removed.ids_eq]
        exact fun member => absent (List.mem_of_mem_eraseIdx member)
      · rwa [removed.ids_of_ne same]

/-- What stands on a board stays there or is removed from its position. -/
theorem Effect.mem_ids_or_removed (effect : Effect env added before after) {id : Nat}
    (member : id ∈ before.boards.ids playerIndex) :
    id ∈ after.boards.ids playerIndex ∨
      ∃ position, Removal env playerIndex position before after ∧
        (before.boards.ids playerIndex)[position]? = some id := by
  cases effect with
  | update update => exact .inl (by rwa [update.boards.ids_eq])
  | noRoom boards => exact .inl (by rwa [boards])
  | @insertion other position emo inserted =>
      by_cases same : playerIndex = other
      · subst same
        rw [inserted.ids_eq]
        exact .inl (List.mem_insertIdx (by simpa using inserted.bound) |>.mpr (.inr member))
      · exact .inl (by rwa [inserted.ids_of_ne same])
  | @removal other position removed =>
      by_cases same : playerIndex = other
      · subst same
        obtain ⟨index, found⟩ := List.mem_iff_getElem?.mp member
        by_cases here : index = position
        · subst here
          exact .inr ⟨index, removed, found⟩
        · rw [removed.ids_eq]
          exact .inl (List.mem_eraseIdx_iff_getElem?.mpr ⟨index, here, found⟩)
      · exact .inl (by rwa [removed.ids_of_ne same])

end Effect

/-! ## Emos that leave and emos that are set -/

/-- The run that starts at `start` removes the emo with this id from the board. -/
def Leaves (start : Config Task (St env)) (playerIndex : PlayerIndex) (emoId : Nat) : Prop :=
  ∃ task before calls after position, PerformedIn (perform env) start task before ∧
    perform env task before = .ok (calls, after) ∧
    Removal env playerIndex position before after ∧
    (before.boards.ids playerIndex)[position]? = some emoId

/-- The run that starts at `start` sets a new emo with this id on some board. -/
def Spawns (start : Config Task (St env)) (emoId : Nat) : Prop :=
  ∃ task before calls after playerIndex position emo,
    PerformedIn (perform env) start task before ∧
    perform env task before = .ok (calls, after) ∧
    Insertion env playerIndex position emo before after ∧ emo.id = emoId

section Run

variable {start last : Config Task (St env)}

theorem generatedIds_le_of_reaches (reached : Reaches (perform env) start last) :
    start.state.generatedIds ≤ last.state.generatedIds :=
  Reaches.state_invariant (P := fun state => start.state.generatedIds ≤ state.generatedIds)
    (fun le performed => Nat.le_trans le (perform_performs performed).effect.generatedIds_le)
    reached (Nat.le_refl _)

theorem Apart.reaches (apart : Apart first start.state)
    (reached : Reaches (perform env) start last)
    (few : last.state.generatedIds ≤ first + idCount) : Apart first last.state :=
  Reaches.state_invariant
    (P := fun state => state.generatedIds ≤ first + idCount → Apart first state)
    (fun holds performed few =>
      let effect := (perform_performs performed).effect
      effect.apart (holds (Nat.le_trans effect.generatedIds_le few)) few)
    reached (fun _ => apart) few

/-- A generated id that is not on a board is on it at no later point of the run. -/
theorem notMem_ids_of_reaches {id : Nat}
    (issued : Issued idCount first start.state.generatedIds id)
    (absent : id ∉ start.state.boards.ids playerIndex)
    (reached : Reaches (perform env) start last)
    (few : last.state.generatedIds ≤ first + idCount) :
    id ∉ last.state.boards.ids playerIndex := by
  induction reached with
  | refl => exact absent
  | tail before step ih =>
      cases step with
      | call performed =>
          have effect := (perform_performs performed).effect
          have fewBefore := Nat.le_trans effect.generatedIds_le few
          exact effect.notMem_ids (issued.mono (generatedIds_le_of_reaches before)) (ih fewBefore)
            few

theorem mem_ids_or_leaves {id : Nat} (member : id ∈ start.state.boards.ids playerIndex)
    (reached : Reaches (perform env) start last) :
    id ∈ last.state.boards.ids playerIndex ∨ Leaves start playerIndex id := by
  induction reached with
  | refl => exact .inl member
  | tail before step ih =>
      cases step with
      | @call task rest calls state after performed =>
          rcases ih with stands | left
          · rcases (perform_performs performed).effect.mem_ids_or_removed stands with
              stays | ⟨position, removed, found⟩
            · exact .inl stays
            · exact .inr ⟨task, state, calls, after, position, ⟨rest, before⟩, performed, removed,
                found⟩
          · exact .inr left

/-- A returned run has removed an emo exactly if its id is gone. -/
theorem leaves_iff {stack : List Task} {state after : St env} {id : Nat}
    (apart : Apart first state) (returned : Returns (perform env) ⟨stack, state⟩ after)
    (few : after.generatedIds ≤ first + idCount) (member : id ∈ state.boards.ids playerIndex) :
    Leaves (⟨stack, state⟩ : Config Task (St env)) playerIndex id ↔
      id ∉ after.boards.ids playerIndex := by
  constructor
  · rintro ⟨task, before, calls, removed, position, ⟨rest, reached⟩, performed, removal, found⟩
    have next := reached.tail (.call performed)
    have onwards : Reaches (perform env) ⟨calls ++ rest, removed⟩ ⟨[], after⟩ :=
      returned.of_reaches next
    have fewThere := Nat.le_trans (generatedIds_le_of_reaches onwards) few
    have apartThere := apart.reaches reached
      (Nat.le_trans (perform_performs performed).effect.generatedIds_le fewThere)
    have issued := apart.issued id (BattleBoards.mem_allIds member)
    refine notMem_ids_of_reaches (issued.mono (generatedIds_le_of_reaches next)) ?_ onwards few
    rw [removal.ids_eq]
    exact not_mem_eraseIdx (apartThere.ids_nodup playerIndex) found
  · intro absent
    exact (mem_ids_or_leaves member returned).resolve_left absent

/-- No new emo gets an id that was generated before the run. -/
theorem Spawns.ne {id emoId : Nat} (spawns : Spawns start emoId)
    (issued : Issued idCount first start.state.generatedIds id)
    (few : ∀ last, Reaches (perform env) start last →
      last.state.generatedIds ≤ first + idCount) : emoId ≠ id := by
  obtain ⟨task, before, calls, after, other, position, emo, ⟨rest, reached⟩, performed, inserted,
    rfl⟩ := spawns
  exact inserted.ne_id (issued.mono (generatedIds_le_of_reaches reached))
    (few _ (reached.tail (.call performed)))

end Run

/-! ## The loop -/

/-- The first iterations of the loop of `damage_all_emos`, as it starts. -/
def areaDamage (env : Env) (playerIndex : PlayerIndex) (damage : Nat) (start : St env)
    (turns : Nat) : Config Task (St env) :=
  let (calls, state) := damageAllEmos env playerIndex damage start
  ⟨calls.take turns, state⟩

/-- The loop finds this state at its turn for the emo at the index `turn` of the
board at entry: the earlier iterations, with everything that they call, have
returned. -/
def Begins (env : Env) (playerIndex : PlayerIndex) (damage : Nat) (start : St env) (turn : Nat)
    (state : St env) : Prop :=
  Returns (perform env) (areaDamage env playerIndex damage start turn) state

/-- At this turn and in this state the loop calls `damage_emo` with this index. -/
structure Hits (env : Env) (playerIndex : PlayerIndex) (damage : Nat) (start : St env)
    (turn : Nat) (state : St env) (emoIndex : Nat) : Prop where
  begins : Begins env playerIndex damage start turn state
  called : ∃ emoId, (damageAllEmos env playerIndex damage start).1[turn]? =
      some (.damageAllEmosOf playerIndex damage emoId) ∧
    state.boards.findEmoIndexById playerIndex emoId = some emoIndex

/-- The loop hits the emos of the board at entry, from left to right, each one
that has not left by its turn and none twice. -/
structure HitsEachOnce (env : Env) (playerIndex : PlayerIndex) (damage : Nat) (start : St env) :
    Prop where
  /-- A hit goes to the emo at the turn's place of the board at entry, which has
  stayed. -/
  target : ∀ turn state emoIndex, Hits env playerIndex damage start turn state emoIndex →
    ∃ emo hit, (start.getBoard playerIndex)[turn]? = some emo ∧
      (state.getBoard playerIndex)[emoIndex]? = some hit ∧ hit.id = emo.id ∧
      ¬ Leaves (areaDamage env playerIndex damage start turn) playerIndex emo.id ∧
      perform env (.damageAllEmosOf playerIndex damage emo.id) state =
        Prod.snd <$> damageEmo env damage playerIndex emoIndex state
  /-- Without a hit the turn does nothing, and this is so exactly if the emo has
  left. -/
  skips : ∀ turn state emo, Begins env playerIndex damage start turn state →
    (start.getBoard playerIndex)[turn]? = some emo →
    ((∀ emoIndex, ¬ Hits env playerIndex damage start turn state emoIndex) ↔
      Leaves (areaDamage env playerIndex damage start turn) playerIndex emo.id) ∧
    ((∀ emoIndex, ¬ Hits env playerIndex damage start turn state emoIndex) →
      perform env (.damageAllEmosOf playerIndex damage emo.id) state = .ok ([], state))
  /-- From the state of one hit the iterations up to that of a later one lead to
  the state of the later one. -/
  inOrder : ∀ turn state emoIndex later laterState laterIndex,
    Hits env playerIndex damage start turn state emoIndex →
    Hits env playerIndex damage start later laterState laterIndex → turn < later →
      Returns (perform env)
        ⟨(areaDamage env playerIndex damage start later).stack.drop turn, state⟩ laterState
  /-- Two hits on one id are one. -/
  once : ∀ turn state emoIndex later laterState laterIndex,
    Hits env playerIndex damage start turn state emoIndex →
    Hits env playerIndex damage start later laterState laterIndex →
    (state.boards.ids playerIndex)[emoIndex]? =
      (laterState.boards.ids playerIndex)[laterIndex]? →
      turn = later ∧ state = laterState ∧ emoIndex = laterIndex
  /-- No hit goes to an emo that the loop has brought onto a board. -/
  spawned : ∀ emoId turn state emoIndex,
    Spawns (areaDamage env playerIndex damage start (start.getBoard playerIndex).length) emoId →
    Hits env playerIndex damage start turn state emoIndex →
      (state.boards.ids playerIndex)[emoIndex]? ≠ some emoId

section Loop

variable {start : St env} {turn : Nat} {state : St env} {emoIndex : Nat}

theorem damageAllEmos_getElem? :
    (damageAllEmos env playerIndex damage start).1[turn]? =
      ((start.boards.ids playerIndex)[turn]?).map (.damageAllEmosOf playerIndex damage) := by
  rw [BattleBoards.ids_getElem?, Option.map_map]
  exact List.getElem?_map

/-- The first iterations run above the other ones. -/
theorem reaches_of_areaDamage {last : Config Task (St env)}
    (reached : Reaches (perform env) (areaDamage env playerIndex damage start turn) last) :
    Reaches (perform env)
      (areaDamage env playerIndex damage start (start.getBoard playerIndex).length)
      ⟨last.stack ++ (damageAllEmos env playerIndex damage start).1.drop turn, last.state⟩ := by
  have above := Reaches.append reached ((damageAllEmos env playerIndex damage start).1.drop turn)
  have whole : (damageAllEmos env playerIndex damage start).1.take
      (start.getBoard playerIndex).length = (damageAllEmos env playerIndex damage start).1 :=
    List.take_of_length_le (Nat.le_of_eq (List.length_map _))
  simpa only [areaDamage, List.take_append_drop, whole] using above

/-- The iterations between two turns lead from the one to the other. -/
theorem Begins.until {later : Nat} {laterState : St env}
    (begins : Begins env playerIndex damage start turn state)
    (laterBegins : Begins env playerIndex damage start later laterState) (le : turn ≤ later) :
    Returns (perform env)
      ⟨(areaDamage env playerIndex damage start later).stack.drop turn, state⟩ laterState := by
  have parts : (areaDamage env playerIndex damage start turn).stack ++
      (areaDamage env playerIndex damage start later).stack.drop turn =
        (areaDamage env playerIndex damage start later).stack := by
    have split := List.take_append_drop turn (areaDamage env playerIndex damage start later).stack
    rwa [areaDamage, List.take_take, Nat.min_eq_left le] at split
  have below : Reaches (perform env)
      ⟨(areaDamage env playerIndex damage start turn).stack ++
        (areaDamage env playerIndex damage start later).stack.drop turn, start⟩
      ⟨(areaDamage env playerIndex damage start later).stack.drop turn, state⟩ :=
    Returns.below begins _
  rw [parts] at below
  exact Returns.of_reaches laterBegins below

/-- A turn hits an index exactly if the emo of its place at entry stands there. -/
theorem hits_iff {emo : BattleEmo} (begins : Begins env playerIndex damage start turn state)
    (distinct : (state.boards.ids playerIndex).Nodup)
    (present : (start.getBoard playerIndex)[turn]? = some emo) :
    Hits env playerIndex damage start turn state emoIndex ↔
      (state.boards.ids playerIndex)[emoIndex]? = some emo.id := by
  have task : (damageAllEmos env playerIndex damage start).1[turn]? =
      some (.damageAllEmosOf playerIndex damage emo.id) := by
    rw [damageAllEmos_getElem?, BattleBoards.ids_getElem?, present]
    rfl
  have found : state.boards.findEmoIndexById playerIndex emo.id = some emoIndex ↔
      (state.boards.ids playerIndex)[emoIndex]? = some emo.id :=
    Keyed.findIdx?_eq_some_iff distinct
  constructor
  · rintro ⟨_, emoId, called, search⟩
    rw [task] at called
    cases called
    exact found.mp search
  · intro stands
    exact ⟨begins, emo.id, task, found.mpr stands⟩

/-- A hit belongs to an emo of the board at entry. -/
theorem Hits.entry (hits : Hits env playerIndex damage start turn state emoIndex) :
    ∃ emo, (start.getBoard playerIndex)[turn]? = some emo ∧
      state.boards.findEmoIndexById playerIndex emo.id = some emoIndex := by
  obtain ⟨_, emoId, called, search⟩ := hits
  rw [damageAllEmos_getElem?, BattleBoards.ids_getElem?, Option.map_map] at called
  obtain ⟨emo, present, same⟩ := Option.map_eq_some_iff.mp called
  cases same
  exact ⟨emo, present, search⟩

variable {later laterIndex : Nat} {laterState : St env} {emo : BattleEmo}
variable (apart : Apart first start)
variable (few : ∀ last, Reaches (perform env)
  (areaDamage env playerIndex damage start (start.getBoard playerIndex).length) last →
    last.state.generatedIds ≤ first + idCount)
include few

theorem Begins.generatedIds_le (begins : Begins env playerIndex damage start turn state) :
    state.generatedIds ≤ first + idCount :=
  few _ (reaches_of_areaDamage begins)

include apart

theorem Begins.ids_nodup (begins : Begins env playerIndex damage start turn state) :
    (state.boards.ids playerIndex).Nodup :=
  (Apart.reaches apart begins (begins.generatedIds_le few)).ids_nodup playerIndex

/-- A hit is on the id of the emo at its place of the board at entry. -/
theorem Hits.stands (hits : Hits env playerIndex damage start turn state emoIndex) :
    ∃ emo, (start.getBoard playerIndex)[turn]? = some emo ∧
      (state.boards.ids playerIndex)[emoIndex]? = some emo.id ∧
      state.boards.findEmoIndexById playerIndex emo.id = some emoIndex := by
  obtain ⟨emo, present, search⟩ := hits.entry
  have distinct := hits.begins.ids_nodup apart few
  exact ⟨emo, present, (hits_iff hits.begins distinct present).mp hits, search⟩

theorem Begins.leaves_iff (begins : Begins env playerIndex damage start turn state)
    (present : (start.getBoard playerIndex)[turn]? = some emo) :
    Leaves (areaDamage env playerIndex damage start turn) playerIndex emo.id ↔
      emo.id ∉ state.boards.ids playerIndex :=
  Battle.leaves_iff apart begins (begins.generatedIds_le few)
    (List.mem_map.mpr ⟨emo, List.mem_of_getElem? present, rfl⟩)

/-- A turn without a hit is that of an emo that is gone. -/
theorem Begins.no_hit_iff (begins : Begins env playerIndex damage start turn state)
    (present : (start.getBoard playerIndex)[turn]? = some emo) :
    (∀ emoIndex, ¬ Hits env playerIndex damage start turn state emoIndex) ↔
      emo.id ∉ state.boards.ids playerIndex := by
  rw [List.mem_iff_getElem?, not_exists]
  exact forall_congr' fun emoIndex =>
    not_congr (hits_iff begins (begins.ids_nodup apart few) present)

/-- Hits on one id belong to one turn. -/
theorem Hits.turn_eq (hits : Hits env playerIndex damage start turn state emoIndex)
    (laterHits : Hits env playerIndex damage start later laterState laterIndex)
    (same : (state.boards.ids playerIndex)[emoIndex]? =
      (laterState.boards.ids playerIndex)[laterIndex]?) : turn = later := by
  obtain ⟨emo, present, stands, _⟩ := hits.stands apart few
  obtain ⟨other, laterPresent, laterStands, _⟩ := laterHits.stands apart few
  rw [stands, laterStands, Option.some.injEq] at same
  obtain ⟨bound, rfl⟩ := List.getElem?_eq_some_iff.mp present
  obtain ⟨laterBound, rfl⟩ := List.getElem?_eq_some_iff.mp laterPresent
  exact Keyed.index_eq_of_key_eq (apart.ids_nodup playerIndex) bound laterBound same

end Loop

/-- In a battle that has not generated more than 65536 ids, `damage_all_emos`
hits each emo of its board once, whatever its hits bring about. -/
theorem damageAllEmos_hits_each_once (env : Env) (playerIndex : PlayerIndex) (damage first : Nat)
    (start : St env) (apart : Apart first start)
    (few : ∀ last, Reaches (perform env)
      (areaDamage env playerIndex damage start (start.getBoard playerIndex).length) last →
        last.state.generatedIds ≤ first + idCount) :
    HitsEachOnce env playerIndex damage start := by
  constructor
  · intro turn state emoIndex hits
    obtain ⟨emo, present, stands, search⟩ := hits.stands apart few
    have found := stands
    rw [BattleBoards.ids_getElem?] at found
    obtain ⟨hit, found, same⟩ := Option.map_eq_some_iff.mp found
    refine ⟨emo, hit, present, found, same, fun leaves => ?_, ?_⟩
    · exact (hits.begins.leaves_iff apart few present).mp leaves (List.mem_of_getElem? stands)
    · simp only [perform, search]
  · intro turn state emo begins present
    have gone := begins.no_hit_iff apart few present
    refine ⟨gone.trans (begins.leaves_iff apart few present).symm, fun none => ?_⟩
    have search : state.boards.findEmoIndexById playerIndex emo.id = .none :=
      Keyed.findIdx?_eq_none_iff.mpr (gone.mp none)
    simp only [perform, search]
  · intro turn state emoIndex later laterState laterIndex hits laterHits lt
    exact hits.begins.until laterHits.begins (Nat.le_of_lt lt)
  · intro turn state emoIndex later laterState laterIndex hits laterHits same
    have turns : turn = later := hits.turn_eq apart few laterHits same
    subst turns
    have states : state = laterState := Returns.unique hits.begins laterHits.begins
    subst states
    have indexes := (hits.begins.ids_nodup apart few)
    obtain ⟨emo, _, stands, _⟩ := hits.stands apart few
    obtain ⟨bound, _⟩ := List.getElem?_eq_some_iff.mp stands
    exact ⟨rfl, rfl, (List.getElem?_inj bound indexes).mp same⟩
  · intro emoId turn state emoIndex spawns hits same
    obtain ⟨emo, present, stands, _⟩ := hits.stands apart few
    rw [stands] at same
    have issued := apart.issued emo.id
      (BattleBoards.mem_allIds (List.mem_map.mpr ⟨emo, List.mem_of_getElem? present, rfl⟩))
    exact spawns.ne issued few (Option.some.inj same).symm

/-! ## A loop with a retirement, a new emo and a second loop -/

def heirBase : Base where
  id := 0
  typ := .human
  grade := 1
  attack := 1
  health := 5
  abilities := []

/-- An emo that sets another one when it retires. -/
def ancestorBase : Base where
  id := 1
  typ := .human
  grade := 1
  attack := 1
  health := 1
  abilities := [.battle (.general (.asOneself .retire (.setEmo .ally 0)))]

/-- An emo that damages its own board when it retires. -/
def bombBase : Base where
  id := 2
  typ := .human
  grade := 1
  attack := 1
  health := 1
  abilities := [.battle (.general (.asOneself .retire (.damageAll .ally 1)))]

def areaEnv : Env where
  emoBases id :=
    if id = 0 then some heirBase else if id = 1 then some ancestorBase else
      if id = 2 then some bombBase else none
  sampler := .first

def areaState : St areaEnv where
  boards := {
    board0 := [.newWithBase 0 ancestorBase false, .newWithBase 1 bombBase false,
      .newWithAttributes 2 heirBase
        { attack := 1, health := 1, abilities := [], isTriple := false }]
    board1 := [] }
  logs := []
  rng := ()
  generatedIds := 3

/-- The first hit sets an emo and the second one damages the board again, so that
the third emo has left by its turn. -/
theorem damageAllEmos_hits_each_once_areaState : HitsEachOnce areaEnv .zero 1 areaState := by
  have apart : Apart 0 areaState := by
    have below : ∀ id ∈ areaState.boards.allIds, id < 3 := by decide
    refine ⟨by decide, fun id member => ?_, Nat.zero_le 3⟩
    have few : id < idCount := Nat.lt_of_lt_of_le (below id member) (by decide)
    exact ⟨id, Nat.zero_le id, below id member, Nat.mod_eq_of_lt few⟩
  have whole : ∃ last,
      Reaches (perform areaEnv) (areaDamage areaEnv .zero 1 areaState 3) last ∧
        decide (last.stack = [] ∧ last.state.generatedIds = 4) :=
    exists_reached_of_advance 13 (by decide +kernel)
  obtain ⟨⟨stack, after⟩, returned, ended⟩ := whole
  obtain ⟨rfl, generated⟩ : stack = [] ∧ after.generatedIds = 4 := of_decide_eq_true ended
  refine damageAllEmos_hits_each_once areaEnv .zero 1 0 areaState apart fun last reached => ?_
  have onwards := generatedIds_le_of_reaches (Returns.of_reaches returned reached)
  exact Nat.le_trans (generated ▸ onwards) (by decide)

end EmojiBattler.Mtc.Battle
