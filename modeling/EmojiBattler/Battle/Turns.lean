import EmojiBattler.Library.RoundRobin
import EmojiBattler.Battle.Counts

/-! # Whose turn it is to attack

The attack counts of a board go down in one step from left to right, as long as
emos are counted and set where the indexes of the cascade still mean what they
meant when they were taken. -/

namespace EmojiBattler.Mtc.Battle

open EmojiBattler.Emo CallMachine Positions RoundRobin

variable {env : Env}

/-! ## Whose turn it is -/

theorem getAttackEmoIndexFrom_isNext {seen rest : List BattleEmo} {index least : Nat}
    (next : IsNext (seen.map BattleEmo.attackAndSurvivedCount) index)
    (found : (seen.map BattleEmo.attackAndSurvivedCount)[index]? = some least) :
    IsNext ((seen ++ rest).map BattleEmo.attackAndSurvivedCount)
      (getAttackEmoIndexFrom index least (rest.zipIdx seen.length)) := by
  induction rest generalizing seen index least with
  | nil => rwa [List.append_nil]
  | cons emo rest ih =>
      have more : (seen ++ [emo]).map BattleEmo.attackAndSurvivedCount =
          seen.map BattleEmo.attackAndSurvivedCount ++ [emo.attackAndSurvivedCount] := by
        rw [List.map_append, List.map_singleton]
      have length : (seen ++ [emo]).length = seen.length + 1 := by simp
      rw [List.zipIdx_cons, getAttackEmoIndexFrom, List.append_cons, ← length]
      split
      · rename_i less
        apply ih
        · rw [more]
          have joined := next.snoc_less found less
          rwa [List.length_map] at joined
        · rw [more, ← List.length_map BattleEmo.attackAndSurvivedCount,
            List.getElem?_concat_length]
      · rename_i notLess
        apply ih
        · rw [more]
          exact next.snoc_not_less found notLess
        · rw [more, List.getElem?_append_left (List.getElem?_eq_some_iff.mp found).1, found]

/-- `get_attack_emo_index` finds the leftmost of the emos that attacked least
often. -/
theorem getAttackEmoIndex_isNext {emos : List BattleEmo} {index : Nat}
    (chosen : getAttackEmoIndex emos = .ok index) :
    IsNext (emos.map BattleEmo.attackAndSurvivedCount) index := by
  simp only [getAttackEmoIndex, Result.bind_eq_ok_iff, okOr_eq_ok_iff,
    Result.pure_eq_ok_iff] at chosen
  obtain ⟨first, found, rfl⟩ := chosen
  cases emos with
  | nil => cases found
  | cons head rest =>
      cases found
      exact @getAttackEmoIndexFrom_isNext [first] rest 0 _ (isNext_singleton _) rfl

/-- An emo that is set with a remembered index and count joins emos that attacked
about as often. -/
def FitsRemembered (boards : BattleBoards) : Option (PlayerIndex × Nat × Nat) → Prop
  | some (playerIndex, emoIndex, count) =>
      (boards.getBoard playerIndex).length < boardEmoMaxCount →
        Fits (boards.attackCounts playerIndex) emoIndex count
  | none => True

instance decidableFitsRemembered (boards : BattleBoards) :
    (remembered : Option (PlayerIndex × Nat × Nat)) → Decidable (FitsRemembered boards remembered)
  | some (_, _, _) => inferInstanceAs (Decidable (_ → Fits _ _ _))
  | none => .isTrue trivial

/-- The counter damage hits the attacker or nobody, and the count is that of the
attacker, which is still the leftmost of those that attacked least often. -/
def HitsAttacker (boards : BattleBoards) : Task → Prop
  | .attackDamageCounter playerIndex emoIndex _ emoId =>
      Locates (boards.ids playerIndex) emoIndex emoId
  | .countAttackAndSurvived playerIndex emoIndex emoId =>
      IsNext (boards.attackCounts playerIndex) emoIndex ∧
        (boards.ids playerIndex)[emoIndex]? = some emoId
  | _ => True

instance (boards : BattleBoards) (task : Task) : Decidable (HitsAttacker boards task) := by
  cases task with
  | attackDamageCounter => exact inferInstanceAs (Decidable (Locates _ _ _))
  | countAttackAndSurvived => exact inferInstanceAs (Decidable (IsNext _ _ ∧ _ = _))
  | _ => exact .isTrue trivial

/-- What a task needs for the turns to stay in order. -/
structure Task.KeepsTurns (boards : BattleBoards) (task : Task) : Prop where
  hits : HitsAttacker boards task
  fits : FitsRemembered boards task.remembered?

instance (boards : BattleBoards) (task : Task) : Decidable (task.KeepsTurns boards) :=
  decidable_of_iff (HitsAttacker boards task ∧ FitsRemembered boards task.remembered?)
    ⟨fun both => ⟨both.1, both.2⟩, fun keeps => ⟨keeps.hits, keeps.fits⟩⟩

/-- The condition on the next task of a battle. -/
def KeepsTurns (config : Config Task (St env)) : Prop :=
  ∀ task ∈ config.stack.head?, task.KeepsTurns config.state.boards

instance : DecidablePred (@KeepsTurns env) := fun _ =>
  inferInstanceAs (Decidable (∀ task ∈ _, _))

/-! ## The turns stay in order -/

/-- On both boards the attack counts go down in one step from left to right. -/
def InTurn (boards : BattleBoards) : Prop :=
  ∀ playerIndex, Staircase (boards.attackCounts playerIndex)

/-- Every place is right but that of an emo set as remembered. -/
theorem Place.fits {task : Task} {boards : BattleBoards} {playerIndex : PlayerIndex}
    {emoIndex count : Nat} (place : Place task boards playerIndex emoIndex count)
    (inTurn : InTurn boards) (remembered : FitsRemembered boards task.remembered?)
    (room : (boards.getBoard playerIndex).length < boardEmoMaxCount) :
    Fits (boards.attackCounts playerIndex) emoIndex count := by
  cases place with
  | remembered given =>
      rw [given] at remembered
      exact remembered room
  | behind next found =>
      subst next
      exact (inTurn playerIndex).fits_behind found
  | last bound last =>
      subst bound
      exact (inTurn playerIndex).fits_last last
  | first empty bound =>
      rw [empty]
      exact ⟨by simp, by simp⟩

/-- What the order of the counts needs of a task: it counts an attack for whose
turn it is, and sets an emo where it fits. -/
structure Task.KeepsOrder (boards : BattleBoards) (task : Task) : Prop where
  counts : ∀ playerIndex emoIndex emoId,
    task = .countAttackAndSurvived playerIndex emoIndex emoId →
    IsNext (boards.attackCounts playerIndex) emoIndex
  fits : FitsRemembered boards task.remembered?

theorem Task.KeepsTurns.keepsOrder {task : Task} {boards : BattleBoards}
    (keeps : task.KeepsTurns boards) : task.KeepsOrder boards := by
  refine ⟨fun playerIndex emoIndex emoId same => ?_, keeps.fits⟩
  subst same
  exact keeps.hits.1

theorem InTurn.step {task : Task} {state after : St env} {calls : List Task}
    (inTurn : InTurn state.boards) (keeps : task.KeepsOrder state.boards)
    (performed : perform env task state = .ok (calls, after)) : InTurn after.boards := by
  intro playerIndex
  have before := inTurn playerIndex
  rw [← BattleBoards.tally_map_snd] at before ⊢
  cases perform_tallied performed playerIndex with
  | kept tally => rwa [tally]
  | @retired emoIndex tally =>
      rw [tally, ← List.eraseIdx_map]
      exact before.eraseIdx emoIndex
  | joined room bound place tally =>
      rw [tally, List.map_insertIdx, staircase_insertIdx_iff (by simpa using bound)]
      refine ⟨before, ?_⟩
      rw [BattleBoards.tally_map_snd]
      exact place.fits inTurn keeps.fits room
  | @counted emoIndex emoId id count counts found tally =>
      have mapped : ((state.boards.tally playerIndex).map Prod.snd)[emoIndex]? = some count := by
        rw [List.getElem?_map, found]
        rfl
      rw [tally, List.map_set, before.serve_iff mapped, BattleBoards.tally_map_snd]
      exact keeps.counts _ _ _ counts

/-- A task keeps the counts in order exactly if it counts and sets in order. -/
theorem InTurn.step_iff {task : Task} {state after : St env} {calls : List Task}
    (inTurn : InTurn state.boards) (performed : perform env task state = .ok (calls, after)) :
    InTurn after.boards ↔ task.KeepsOrder state.boards := by
  refine ⟨fun kept => ⟨fun playerIndex emoIndex emoId counts => ?_, ?_⟩,
    fun keeps => inTurn.step keeps performed⟩
  · subst counts
    obtain ⟨emo, found, _, rfl⟩ := countAttackAndSurvived_cases performed
    have served : (state.boards.attackCounts playerIndex)[emoIndex]? =
        some emo.attackAndSurvivedCount := by
      rw [BattleBoards.attackCounts, List.getElem?_map, found]
      rfl
    have after := kept playerIndex
    dsimp only at after
    rw [← BattleBoards.tally_map_snd, (BattleBoards.tally_setEmo_count _).1, List.map_set,
      BattleBoards.tally_map_snd] at after
    exact ((inTurn playerIndex).serve_iff served).mp after
  · cases remembers : task.remembered? with
    | none => trivial
    | some place =>
        obtain ⟨playerIndex, emoIndex, count⟩ := place
        intro room
        obtain ⟨bound, joined⟩ := perform_remembered remembers room performed
        have after := kept playerIndex
        rw [joined] at after
        exact ((staircase_insertIdx_iff bound).mp after).2

/-! ## Attacks made and attacks counted -/

/-- The emo that is about to attack. -/
def aboutToAttack? (config : Config Task (St env)) : Option (PlayerIndex × Nat) :=
  match config.stack with
  | .attack playerIndex :: _ =>
      match getAttackEmoIndex (config.state.getBoard playerIndex) with
      | .ok emoIndex => (config.state.boards.ids playerIndex)[emoIndex]?.map (playerIndex, ·)
      | .error _ => none
  | _ => none

/-- The attacker of an attack that is not counted yet. -/
def Task.striker? (boards : BattleBoards) : Task → Option (PlayerIndex × Nat)
  | .attackDamage playerIndex emoIndex _ =>
      (boards.ids playerIndex)[emoIndex]?.map (playerIndex, ·)
  | .attackDamageCounter playerIndex _ _ emoId | .countAttackAndSurvived playerIndex _ emoId =>
      some (playerIndex, emoId)
  | _ => none

def strikers (boards : BattleBoards) (stack : List Task) : List (PlayerIndex × Nat) :=
  stack.filterMap (Task.striker? boards)

@[simp] theorem strikers_append (boards : BattleBoards) (calls rest : List Task) :
    strikers boards (calls ++ rest) = strikers boards calls ++ strikers boards rest :=
  List.filterMap_append

theorem strikers_eq_nil {boards : BattleBoards} {calls : List Task}
    (none : ∀ call ∈ calls, call.striker? boards = none) : strikers boards calls = [] :=
  List.filterMap_eq_nil_iff.mpr none

theorem striker?_of_isPlain {task : Task} (boards : BattleBoards) (plain : task.isPlain) :
    task.striker? boards = none := by
  cases task <;> first | rfl | cases plain

/-- A task that takes the index of an attacker from the boards that it finds. -/
def Task.isBlow : Task → Bool
  | .attackDamage .. => true
  | _ => false

theorem strikers_of_no_blow {stack : List Task} (before after : BattleBoards)
    (none : ∀ task ∈ stack, task.isBlow = false) :
    strikers after stack = strikers before stack := by
  apply List.filterMap_congr
  intro task member
  have noBlow := none task member
  cases task <;> first | rfl | cases noBlow

/-- A task other than those of an attack leaves no attack to be counted. -/
theorem calls_striker? {task : Task} {state after : St env} {calls : List Task}
    (boards : BattleBoards) (performed : perform env task state = .ok (calls, after))
    (other : ∀ playerIndex, task ≠ .attack playerIndex)
    (blow : task.isBlow = false)
    (counter : ∀ playerIndex emoIndex damage emoId,
      task ≠ .attackDamageCounter playerIndex emoIndex damage emoId) :
    strikers boards calls = [] := by
  apply strikers_eq_nil
  intro call member
  cases (perform_performs performed).origin call member with
  | attackDamage attacks => exact absurd attacks (other _)
  | counter attacks =>
      subst attacks
      cases blow
  | count attacks => exact absurd attacks (counter _ _ _ _)
  | _ => rfl

theorem tally_unique {boards : BattleBoards} {playerIndex : PlayerIndex} {id left right : Nat}
    (distinct : (boards.ids playerIndex).Nodup) (first : (id, left) ∈ boards.tally playerIndex)
    (second : (id, right) ∈ boards.tally playerIndex) : left = right := by
  rw [← BattleBoards.tally_map_fst] at distinct
  exact (Prod.mk.inj (List.inj_on_of_nodup_map distinct first second rfl)).2

variable {playerIndex : PlayerIndex} {id : Nat}

/-- Nothing but the last statement of `attack_damage` changes the count of an emo
that stays. -/
theorem Tallied.held_eq {task : Task} {before after : St env} {held holds : Nat}
    (tallied : Tallied task before after playerIndex)
    (other : ∀ playerIndex emoIndex emoId,
      task ≠ .countAttackAndSurvived playerIndex emoIndex emoId)
    (distinct : (before.boards.ids playerIndex).Nodup)
    (distinctAfter : (after.boards.ids playerIndex).Nodup)
    (old : (id, held) ∈ before.boards.tally playerIndex)
    (new : (id, holds) ∈ after.boards.tally playerIndex) : holds = held := by
  cases tallied with
  | kept tally =>
      rw [tally] at new
      exact tally_unique distinct new old
  | retired tally =>
      rw [tally] at new
      exact tally_unique distinct (List.mem_of_mem_eraseIdx new) old
  | joined room bound place tally =>
      -- The one who joined has an id of its own.
      have stays : (id, held) ∈ after.boards.tally playerIndex := by
        rw [tally, List.mem_insertIdx bound]
        exact .inr old
      exact tally_unique distinctAfter new stays
  | counted counts => exact absurd counts (other _ _ _)

theorem strikers_cons (boards : BattleBoards) (task : Task) (rest : List Task) :
    strikers boards (task :: rest) = (task.striker? boards).toList ++ strikers boards rest := by
  unfold strikers
  rw [List.filterMap_cons]
  cases task.striker? boards <;> rfl

/-- Whoever is chosen to attack makes the attack. -/
theorem attack_strikers {attackPlayerIndex : PlayerIndex} {rest calls : List Task}
    {state after : St env}
    (performed : perform env (.attack attackPlayerIndex) state = .ok (calls, after)) :
    (∀ other, after.boards.tally other = state.boards.tally other) ∧
      strikers after.boards calls =
        (aboutToAttack? (⟨.attack attackPlayerIndex :: rest, state⟩ :
          Config Task (St env))).toList := by
  obtain ⟨attackEmoIndex, defenseEmoIndex, _, rng, chosen, _, rfl, rfl⟩ := attack_cases performed
  rw [BattleState.addLog_boards]
  refine ⟨fun _ => rfl, ?_⟩
  simp only [strikers, List.filterMap_cons, List.filterMap_nil, Task.striker?, aboutToAttack?,
    chosen]
  cases (state.boards.ids attackPlayerIndex)[attackEmoIndex]? <;> rfl

theorem attackDamage_strikers {attackPlayerIndex : PlayerIndex}
    {attackEmoIndex defenseEmoIndex : Nat} {calls : List Task} {state after : St env}
    (performed : perform env (.attackDamage attackPlayerIndex attackEmoIndex defenseEmoIndex)
      state = .ok (calls, after)) :
    strikers after.boards calls =
      ((Task.attackDamage attackPlayerIndex attackEmoIndex defenseEmoIndex).striker?
        state.boards).toList := by
  obtain ⟨attackEmo, defenseEmo, _, own, found, _, damaged, rfl⟩ := attackDamage_cases performed
  have plain := fun call member =>
    striker?_of_isPlain after.boards (damageEmo_calls damaged call member)
  rw [strikers_append, strikers_eq_nil plain]
  simp only [strikers, Task.striker?, BattleBoards.ids_getElem?, found]
  rfl

/-- The counter damage either leaves the attack to be counted or has taken the
attacker. -/
theorem attackDamageCounter_strikers {attackPlayerIndex : PlayerIndex}
    {attackEmoIndex defenseEmoAttack attackEmoId : Nat} {calls : List Task} {state after : St env}
    (hits : Locates (state.boards.ids attackPlayerIndex) attackEmoIndex attackEmoId)
    (distinct : (state.boards.ids attackPlayerIndex).Nodup)
    (performed : perform env (.attackDamageCounter attackPlayerIndex attackEmoIndex
      defenseEmoAttack attackEmoId) state = .ok (calls, after)) :
    strikers after.boards calls = [(attackPlayerIndex, attackEmoId)] ∨
      strikers after.boards calls = [] ∧ attackEmoId ∉ after.boards.ids attackPlayerIndex := by
  rcases attackDamageCounter_cases performed with
    ⟨missing, rfl, rfl⟩ | ⟨survived, own, within, damaged, rfl⟩
  · right
    refine ⟨rfl, hits.not_mem ?_⟩
    rwa [BattleBoards.length_ids]
  · have plain := fun call member =>
      striker?_of_isPlain after.boards (damageEmo_calls damaged call member)
    rw [strikers_append, strikers_eq_nil plain]
    cases survived with
    | true => exact .inl rfl
    | false =>
        right
        refine ⟨rfl, ?_⟩
        obtain ⟨outcome, _, _⟩ := damageEmo_cases damaged
        rcases outcome with ⟨same, _⟩ | ⟨_, removed⟩
        · cases same
        · rw [removed.ids_eq]
          exact not_mem_eraseIdx distinct
            (hits.getElem?_eq (by rwa [BattleBoards.length_ids]))

/-- The last statement of `attack_damage` counts one attack of the attacker. -/
theorem countAttackAndSurvived_holds {player : PlayerIndex} {emoIndex emoId held holds : Nat}
    {calls : List Task} {state after : St env}
    (stands : (state.boards.ids player)[emoIndex]? = some emoId)
    (distinct : (state.boards.ids playerIndex).Nodup)
    (distinctAfter : (after.boards.ids playerIndex).Nodup)
    (performed : perform env (.countAttackAndSurvived player emoIndex emoId) state =
      .ok (calls, after))
    (old : (id, held) ∈ state.boards.tally playerIndex)
    (new : (id, holds) ∈ after.boards.tally playerIndex) :
    holds = held + [(player, emoId)].count (playerIndex, id) := by
  obtain ⟨emo, found, rfl, rfl⟩ := countAttackAndSurvived_cases performed
  have here := BattleBoards.tally_getElem? found
  rw [BattleBoards.ids_getElem?, found] at stands
  cases stands
  obtain ⟨tally, others⟩ := @BattleBoards.tally_setEmo_count state.boards player emoIndex emo
    (emo.attackAndSurvivedCount + 1)
  rw [List.count_singleton]
  by_cases same : playerIndex = player
  · subst same
    have bound := (List.getElem?_eq_some_iff.mp here).1
    by_cases own : emo.id = id
    · subst own
      have counted : (emo.id, emo.attackAndSurvivedCount + 1) ∈
          (state.boards.setEmo playerIndex emoIndex
            { emo with attackAndSurvivedCount := emo.attackAndSurvivedCount + 1 }).tally
            playerIndex := by
        rw [tally]
        exact List.mem_set bound _
      rw [tally_unique distinctAfter new counted,
        tally_unique distinct old (List.mem_of_getElem? here)]
      simp
    · rw [tally] at new
      rcases List.mem_or_eq_of_mem_set new with new | new
      · rw [tally_unique distinct new old]
        simp [own]
      · exact absurd (Prod.mk.inj new).1.symm own
  · rw [others playerIndex same] at new
    rw [tally_unique distinct new old]
    simp [Ne.symm same]

/-- What an emo has attacked and what is not counted yet grow with its attacks
and with nothing else. -/
theorem attacks_balance {task : Task} {rest calls : List Task} {state after : St env}
    {held holds : Nat} (performed : perform env task state = .ok (calls, after))
    (hits : HitsAttacker state.boards task) (waits : ∀ task ∈ rest, task.isBlow = false)
    (distinct : ∀ player, (state.boards.ids player).Nodup)
    (distinctAfter : (after.boards.ids playerIndex).Nodup)
    (old : (id, held) ∈ state.boards.tally playerIndex)
    (new : (id, holds) ∈ after.boards.tally playerIndex) :
    holds + (strikers after.boards (calls ++ rest)).count (playerIndex, id) =
      held + (strikers state.boards (task :: rest)).count (playerIndex, id) +
        (aboutToAttack? (⟨task :: rest, state⟩ : Config Task (St env))).toList.count
          (playerIndex, id) := by
  have tallied := perform_tallied performed playerIndex
  rw [strikers_append, List.count_append, strikers_cons, List.count_append,
    strikers_of_no_blow state.boards after.boards waits]
  cases task with
  | attack =>
      obtain ⟨tally, made⟩ := @attack_strikers _ _ rest _ _ _ performed
      rw [tally] at new
      rw [tally_unique (distinct playerIndex) new old, made]
      change _ = _ + (([] : List (PlayerIndex × Nat)).count _ + _) + _
      rw [List.count_nil]
      omega
  | attackDamage =>
      have same := tallied.held_eq (by simp) (distinct playerIndex) distinctAfter old new
      rw [attackDamage_strikers performed, same]
      rfl
  | attackDamageCounter player emoIndex damage emoId =>
      have same := tallied.held_eq (by simp) (distinct playerIndex) distinctAfter old new
      rcases attackDamageCounter_strikers hits (distinct player) performed with made | ⟨made, gone⟩
      · rw [made, same]
        rfl
      · -- The attacker is gone, so the emo is another one.
        have other : ¬ ((player, emoId) == (playerIndex, id)) := by
          rw [beq_iff_eq, Prod.mk.injEq]
          rintro ⟨rfl, rfl⟩
          rw [← BattleBoards.tally_map_fst] at gone
          exact gone (List.mem_map_of_mem new)
        change _ = _ + ([(player, emoId)].count _ + _) + 0
        rw [made, same, List.count_nil, List.count_singleton, if_neg other]
        rfl
  | countAttackAndSurvived player emoIndex emoId =>
      have more := countAttackAndSurvived_holds hits.2 (distinct playerIndex) distinctAfter
        performed old new
      rw [calls_striker? after.boards performed (by simp) rfl (by simp), more, List.count_nil]
      change _ = _ + ([(player, emoId)].count _ + _) + 0
      omega
  | _ =>
      have same := tallied.held_eq (by simp) (distinct playerIndex) distinctAfter old new
      rw [calls_striker? after.boards performed (by simp) rfl (by simp), same]
      rfl

/-! ## Between two attacks -/

/-- An attack is made before anything else waits for it. -/
def BlowFirst (stack : List Task) : Prop := ∀ task ∈ stack.tail, task.isBlow = false

theorem BlowFirst.step {task : Task} {rest calls : List Task} {state after : St env}
    (first : BlowFirst (task :: rest)) (performed : perform env task state = .ok (calls, after)) :
    BlowFirst (calls ++ rest) := by
  cases calls with
  | nil => exact fun waiting member => first waiting (List.mem_of_mem_tail member)
  | cons call calls =>
      intro waiting member
      rcases List.mem_append.mp member with new | old
      · cases blow : waiting.isBlow with
        | false => rfl
        | true =>
            -- The one attack that a task makes is its only call.
            cases (perform_performs performed).origin waiting (List.mem_cons_of_mem _ new) with
            | attackDamage attacks =>
                subst attacks
                obtain ⟨_, _, _, _, _, _, only, _⟩ := attack_cases performed
                cases only
                cases new
            | _ => cases blow
      · exact first waiting old

/-- The ids tell the emos apart, and these emos are on the board. -/
structure Together (boards : BattleBoards) (playerIndex : PlayerIndex) (emoIds : List Nat) :
    Prop where
  distinct : boards.allIds.Nodup
  present : ∀ emoId ∈ emoIds, emoId ∈ boards.ids playerIndex

instance (boards : BattleBoards) (playerIndex : PlayerIndex) (emoIds : List Nat) :
    Decidable (Together boards playerIndex emoIds) :=
  decidable_of_iff (boards.allIds.Nodup ∧ ∀ emoId ∈ emoIds, emoId ∈ boards.ids playerIndex)
    ⟨fun both => ⟨both.1, both.2⟩, fun together => ⟨together.distinct, together.present⟩⟩

theorem BattleBoards.ids_nodup {boards : BattleBoards} (distinct : boards.allIds.Nodup)
    (player : PlayerIndex) : (boards.ids player).Nodup := by
  cases player with
  | zero => exact (List.nodup_append.mp distinct).1
  | one => exact (List.nodup_append.mp distinct).2.1

theorem Together.held {boards : BattleBoards} {emoIds : List Nat}
    (together : Together boards playerIndex emoIds) (member : id ∈ emoIds) :
    ∃ held, (id, held) ∈ boards.tally playerIndex := by
  have present := together.present id member
  rw [← BattleBoards.tally_map_fst] at present
  obtain ⟨⟨_, held⟩, found, rfl⟩ := List.mem_map.mp present
  exact ⟨held, found⟩

/-- What holds of a step between two attacks: the turns are kept, and these emos
are there. -/
def InRound (playerIndex : PlayerIndex) (emoIds : List Nat) (before : Config Task (St env)) :
    Prop :=
  KeepsTurns before ∧ Together before.state.boards playerIndex emoIds

instance (playerIndex : PlayerIndex) (emoIds : List Nat) :
    DecidablePred (@InRound env playerIndex emoIds) := fun _ =>
  inferInstanceAs (Decidable (_ ∧ _))

abbrev RoundReaches (env : Env) (playerIndex : PlayerIndex) (emoIds : List Nat) :
    Config Task (St env) → Config Task (St env) → Prop :=
  GuardedReaches (perform env) fun before _ => InRound playerIndex emoIds before

variable {emoIds : List Nat} {start last : Config Task (St env)}

theorem RoundReaches.keepsTurns (round : RoundReaches env playerIndex emoIds start last) :
    GuardedReaches (perform env) (fun before _ => KeepsTurns before) start last :=
  Relation.ReflTransGen.mono (fun _ _ both => ⟨both.1, both.2.1⟩) _ _ round

theorem aboutToAttack?_eq_some_iff {config : Config Task (St env)} :
    aboutToAttack? config = some (playerIndex, id) ↔
      ∃ rest emoIndex, config.stack = .attack playerIndex :: rest ∧
        getAttackEmoIndex (config.state.getBoard playerIndex) = .ok emoIndex ∧
        (config.state.boards.ids playerIndex)[emoIndex]? = some id := by
  unfold aboutToAttack?
  constructor
  · intro about
    split at about
    · rename_i player rest stack
      split at about
      · rename_i emoIndex chosen
        obtain ⟨emoId, stands, same⟩ := Option.map_eq_some_iff.mp about
        cases same
        exact ⟨rest, emoIndex, stack, chosen, stands⟩
      · cases about
    · cases about
  · rintro ⟨rest, emoIndex, stack, chosen, stands⟩
    simp only [stack, chosen, stands, Option.map_some]

/-- No attack is left to be counted when the next one begins. -/
theorem Phase.quiet {attacks : Nat} {config : Config Task (St env)}
    (phase : Phase attacks config.stack) (about : aboutToAttack? config = some (playerIndex, id)) :
    BlowFirst config.stack ∧ ∀ boards, strikers boards config.stack = [] := by
  obtain ⟨rest, _, stack, _⟩ := aboutToAttack?_eq_some_iff.mp about
  rw [stack] at phase ⊢
  obtain ⟨_, tick, rfl⟩ := phase.part_last rfl rfl
  refine ⟨fun waiting member => ?_, fun _ => rfl⟩
  rw [List.mem_singleton.mp member]
  rfl

/-- Whatever an emo attacks more between two points, it was about to attack. -/
theorem RoundReaches.attacks (round : RoundReaches env playerIndex emoIds start last)
    (together : Together last.state.boards playerIndex emoIds) (first : BlowFirst start.stack)
    (member : id ∈ emoIds) {held holds : Nat} (old : (id, held) ∈ start.state.boards.tally playerIndex)
    (new : (id, holds) ∈ last.state.boards.tally playerIndex) :
    ∃ attacks,
      holds + (strikers last.state.boards last.stack).count (playerIndex, id) =
        held + (strikers start.state.boards start.stack).count (playerIndex, id) + attacks ∧
      (0 < attacks → ∃ between, RoundReaches env playerIndex emoIds start between ∧
        RoundReaches env playerIndex emoIds between last ∧
        aboutToAttack? between = some (playerIndex, id)) := by
  induction round generalizing holds with
  | refl =>
      refine ⟨0, ?_, fun more => absurd more (Nat.lt_irrefl 0)⟩
      rw [tally_unique (BattleBoards.ids_nodup together.distinct playerIndex) new old]
      rfl
  | @tail middle last run both ih =>
      obtain ⟨step, keeps, present⟩ := both
      obtain ⟨holds, own⟩ := present.held member
      obtain ⟨attacks, balance, between⟩ := ih present own
      cases step with
      | @call task rest calls state after performed =>
          have waits : ∀ task ∈ rest, task.isBlow = false :=
            Reaches.invariant (P := fun config => BlowFirst config.stack)
              (fun first performed => first.step performed) (GuardedReaches.reaches run) first
          have more := attacks_balance performed (keeps task rfl).hits waits
            (BattleBoards.ids_nodup present.distinct)
            (BattleBoards.ids_nodup together.distinct playerIndex) own new
          dsimp only at balance
          rw [balance, Nat.add_assoc] at more
          refine ⟨_, more, fun positive => ?_⟩
          rcases Nat.eq_zero_or_pos attacks with none | earlier
          · rw [none, Nat.zero_add, List.count_pos_iff, Option.mem_toList] at positive
            exact ⟨_, run, Relation.ReflTransGen.single ⟨.call performed, keeps, present⟩,
              positive⟩
          · obtain ⟨between, before, after, about⟩ := between earlier
            exact ⟨between, before, after.tail ⟨.call performed, keeps, present⟩, about⟩

/-! ## The order of a board -/

theorem Tallied.ids_sublist {task : Task} {before after : St env}
    (tallied : Tallied task before after playerIndex)
    (distinctAfter : (after.boards.ids playerIndex).Nodup)
    (present : ∀ emoId ∈ emoIds, emoId ∈ before.boards.ids playerIndex)
    (order : emoIds.Sublist (after.boards.ids playerIndex)) :
    emoIds.Sublist (before.boards.ids playerIndex) := by
  rw [← BattleBoards.tally_map_fst] at order distinctAfter present ⊢
  cases tallied with
  | kept tally => rwa [tally] at order
  | retired tally =>
      rw [tally] at order
      exact order.trans ((List.eraseIdx_sublist _ _).map _)
  | joined room bound place tally =>
      rw [tally, List.map_insertIdx] at order distinctAfter
      have fresh := List.nodup_cons.mp
        ((List.perm_insertIdx _ _ (by simpa using bound)).nodup_iff.mp distinctAfter)
      exact sublist_of_insertIdx fresh.1 order present
  | @counted emoIndex emoId id count counts found tally =>
      have stands : ((before.boards.tally playerIndex).map Prod.fst)[emoIndex]? = some id := by
        rw [List.getElem?_map, found]
        rfl
      obtain ⟨bound, here⟩ := List.getElem?_eq_some_iff.mp stands
      rw [tally, List.map_set] at order
      dsimp only at order
      rwa [← here, List.set_getElem_self] at order

/-- Who stays keeps its place among those who stay. -/
theorem RoundReaches.ids_sublist (round : RoundReaches env playerIndex emoIds start last)
    (together : Together last.state.boards playerIndex emoIds)
    (order : emoIds.Sublist (last.state.boards.ids playerIndex)) :
    emoIds.Sublist (start.state.boards.ids playerIndex) := by
  have both : Together start.state.boards playerIndex emoIds ∧
      emoIds.Sublist (start.state.boards.ids playerIndex) := by
    induction round using Relation.ReflTransGen.head_induction_on with
    | refl => exact ⟨together, order⟩
    | head both _ ih =>
        obtain ⟨step, _, present⟩ := both
        cases step with
        | call performed =>
            exact ⟨present, (perform_tallied performed playerIndex).ids_sublist
              (BattleBoards.ids_nodup ih.1.distinct playerIndex) present.present ih.2⟩
  exact both.2

/-- Right of an emo nobody attacked more often. -/
theorem InTurn.held_le {boards : BattleBoards} {right least most : Nat} (inTurn : InTurn boards)
    (distinct : (boards.ids playerIndex).Nodup)
    (order : [id, right].Sublist (boards.ids playerIndex))
    (held : (id, most) ∈ boards.tally playerIndex)
    (rightHeld : (right, least) ∈ boards.tally playerIndex) : least ≤ most := by
  rw [← BattleBoards.tally_map_fst, List.sublist_map_iff] at order
  obtain ⟨pairs, sub, ids⟩ := order
  match pairs, ids with
  | [(_, first), (_, second)], rfl =>
      have counts := sub.map Prod.snd
      rw [BattleBoards.tally_map_snd] at counts
      have near := List.pairwise_iff_forall_sublist.mp (inTurn playerIndex) counts
      have own := tally_unique distinct held (sub.subset List.mem_cons_self)
      have other := tally_unique distinct rightHeld
        (sub.subset (List.mem_cons_of_mem _ List.mem_cons_self))
      rw [own, other]
      exact near.1

/-- Nobody attacked less often than the emo that is about to attack. -/
theorem held_le_of_aboutToAttack {config : Config Task (St env)} {other least most : Nat}
    (about : aboutToAttack? config = some (playerIndex, id))
    (distinct : (config.state.boards.ids playerIndex).Nodup)
    (held : (id, least) ∈ config.state.boards.tally playerIndex)
    (otherHeld : (other, most) ∈ config.state.boards.tally playerIndex) : least ≤ most := by
  obtain ⟨_, emoIndex, _, chosen, stands⟩ := aboutToAttack?_eq_some_iff.mp about
  obtain ⟨count, found, _, lowest⟩ := getAttackEmoIndex_isNext chosen
  rw [BattleBoards.ids_getElem?, Option.map_eq_some_iff] at stands
  obtain ⟨emo, here, rfl⟩ := stands
  have mine := BattleBoards.tally_getElem? here
  rw [List.getElem?_map, here] at found
  cases found
  rw [tally_unique distinct held (List.mem_of_getElem? mine)]
  apply lowest
  change most ∈ config.state.boards.attackCounts playerIndex
  rw [← BattleBoards.tally_map_snd]
  exact List.mem_map_of_mem otherHeld

/-! ## Turns of a march -/

/-- Between two attacks of an emo its count grows. -/
theorem held_lt_of_again {attacks : Nat}
    (round : Relation.TransGen
      (fun before after => Step (perform env) before after ∧ InRound playerIndex emoIds before)
      start last)
    (together : Together last.state.boards playerIndex emoIds) (member : id ∈ emoIds)
    (phase : Phase attacks start.stack) (about : aboutToAttack? start = some (playerIndex, id))
    (quiet : strikers last.state.boards last.stack = []) {held holds : Nat}
    (old : (id, held) ∈ start.state.boards.tally playerIndex)
    (new : (id, holds) ∈ last.state.boards.tally playerIndex) : held < holds := by
  obtain ⟨first, silent⟩ := phase.quiet about
  obtain ⟨next, ⟨step, keeps, present⟩, rest⟩ := Relation.TransGen.head'_iff.mp round
  have nextTogether : Together next.state.boards playerIndex emoIds := by
    rcases Relation.ReflTransGen.cases_head rest with rfl | ⟨_, both, _⟩
    · exact together
    · exact both.2.2
  obtain ⟨middle, own⟩ := nextTogether.held member
  cases step with
  | @call task waiting calls state after performed =>
      have once := attacks_balance performed (keeps task rfl).hits first
        (BattleBoards.ids_nodup present.distinct)
        (BattleBoards.ids_nodup nextTogether.distinct playerIndex) old own
      obtain ⟨attacks, balance, _⟩ :=
        RoundReaches.attacks rest together (first.step performed) member own new
      have silent := silent state.boards
      dsimp only [List.tail_cons] at once balance silent
      rw [about, silent] at once
      rw [quiet] at balance
      simp only [List.count_nil, Option.toList_some, List.count_singleton_self] at once balance
      omega

theorem inTurn_of_fresh {battleEmos0 battleEmos1 : List BattleEmo} {seed generatedIds : Nat}
    (fresh : ∀ emo ∈ battleEmos0 ++ battleEmos1, emo.attackAndSurvivedCount = 0) :
    InTurn (marchStart env battleEmos0 battleEmos1 seed generatedIds).state.boards := by
  intro player
  refine @staircase_of_constant _ 0 fun count member => ?_
  obtain ⟨emo, stands, rfl⟩ := List.mem_map.mp member
  cases player with
  | zero => exact fresh emo (List.mem_append_left _ stands)
  | one => exact fresh emo (List.mem_append_right _ stands)

theorem InTurn.reaches (reached : GuardedReaches (perform env) (fun before _ => KeepsTurns before)
      start last) (inTurn : InTurn start.state.boards) : InTurn last.state.boards :=
  GuardedReaches.invariant (P := fun config => InTurn config.state.boards)
    (fun inTurn performed keeps => inTurn.step (keeps _ rfl).keepsOrder performed) reached inTurn

/-- Between two attacks of an emo everyone right of it that stays on the board
attacks, if the march keeps the turns. -/
theorem attacks_between {battleEmos0 battleEmos1 : List BattleEmo} {seed generatedIds : Nat}
    {attacker right : Nat}
    (reached : GuardedReaches (perform env) (fun before _ => KeepsTurns before)
      (marchStart env battleEmos0 battleEmos1 seed generatedIds) start)
    (inTurn : InTurn start.state.boards)
    (round : Relation.TransGen
      (fun before after => Step (perform env) before after ∧
        InRound playerIndex [attacker, right] before) start last)
    (together : Together last.state.boards playerIndex [attacker, right])
    (order : [attacker, right].Sublist (last.state.boards.ids playerIndex))
    (about : aboutToAttack? start = some (playerIndex, attacker))
    (again : aboutToAttack? last = some (playerIndex, attacker)) :
    ∃ between, RoundReaches env playerIndex [attacker, right] start between ∧
      RoundReaches env playerIndex [attacker, right] between last ∧
      aboutToAttack? between = some (playerIndex, right) := by
  have run : RoundReaches env playerIndex [attacker, right] start last := round.to_reflTransGen
  obtain ⟨_, phase⟩ := Phase.reaches reached.reaches
  have whole := reached.trans run.keepsTurns
  obtain ⟨_, lastPhase⟩ := Phase.reaches (GuardedReaches.reaches whole)
  obtain ⟨first, silent⟩ := phase.quiet about
  obtain ⟨_, quiet⟩ := lastPhase.quiet again
  have present : Together start.state.boards playerIndex [attacker, right] := by
    obtain ⟨_, both, _⟩ := Relation.TransGen.head'_iff.mp round
    exact both.2.2
  have attackerMember : attacker ∈ [attacker, right] := List.mem_cons_self
  have rightMember : right ∈ [attacker, right] := List.mem_cons_of_mem _ List.mem_cons_self
  obtain ⟨own, ownHeld⟩ := present.held attackerMember
  obtain ⟨other, otherHeld⟩ := present.held rightMember
  obtain ⟨ownMore, ownHolds⟩ := together.held attackerMember
  obtain ⟨otherMore, otherHolds⟩ := together.held rightMember
  have distinct := BattleBoards.ids_nodup present.distinct playerIndex
  have distinctLast := BattleBoards.ids_nodup together.distinct playerIndex
  have before : other ≤ own :=
    inTurn.held_le distinct (run.ids_sublist together order) ownHeld otherHeld
  have grown : own < ownMore :=
    held_lt_of_again round together attackerMember phase about (quiet _) ownHeld ownHolds
  have least : ownMore ≤ otherMore :=
    held_le_of_aboutToAttack again distinctLast ownHolds otherHolds
  obtain ⟨attacks, balance, between⟩ :=
    run.attacks together first rightMember otherHeld otherHolds
  rw [quiet, silent] at balance
  exact between (by omega)

/-- In a march between fresh emos the attack counts of each board go down in one
step from left to right exactly if all attacks are counted and all emos set in
order.  As far as the march keeps the turns, they do, and between two attacks
of an emo everyone right of it that stays on the board attacks. -/
theorem march_in_turn {battleEmos0 battleEmos1 : List BattleEmo} {seed generatedIds : Nat}
    (fresh : ∀ emo ∈ battleEmos0 ++ battleEmos1, emo.attackAndSurvivedCount = 0) :
    ((∀ config,
        Reaches (perform env) (marchStart env battleEmos0 battleEmos1 seed generatedIds) config →
        InTurn config.state.boards) ↔
      ∀ task state calls after,
        PerformedIn (perform env) (marchStart env battleEmos0 battleEmos1 seed generatedIds)
          task state →
        perform env task state = .ok (calls, after) → task.KeepsOrder state.boards) ∧
    ∀ config,
      GuardedReaches (perform env) (fun before _ => KeepsTurns before)
        (marchStart env battleEmos0 battleEmos1 seed generatedIds) config →
      InTurn config.state.boards ∧
      ∀ playerIndex attacker right last,
        Relation.TransGen
          (fun before after => Step (perform env) before after ∧
            InRound playerIndex [attacker, right] before) config last →
        Together last.state.boards playerIndex [attacker, right] →
        [attacker, right].Sublist (last.state.boards.ids playerIndex) →
        aboutToAttack? config = some (playerIndex, attacker) →
        aboutToAttack? last = some (playerIndex, attacker) →
        ∃ between, RoundReaches env playerIndex [attacker, right] config between ∧
          RoundReaches env playerIndex [attacker, right] between last ∧
          aboutToAttack? between = some (playerIndex, right) := by
  have initial := @inTurn_of_fresh env _ _ seed generatedIds fresh
  refine ⟨state_invariant_iff initial InTurn.step_iff, fun config reached => ?_⟩
  have inTurn := initial.reaches reached
  exact ⟨inTurn, fun _ _ _ _ round together order about again =>
    attacks_between reached inTurn round together order about again⟩

def duelistBase (id health : Nat) : Base where
  id := id
  typ := .human
  grade := 1
  attack := 1
  health := health
  abilities := []

/-- An emo that damages the whole rival board when it retires. -/
def avengerBase : Base where
  id := 3
  typ := .human
  grade := 1
  attack := 1
  health := 2
  abilities := [.battle (.general (.asOneself .retire (.damageAll .rival 1)))]

def turnsEnv : Env where
  emoBases id := [duelistBase 0 3, duelistBase 1 1, duelistBase 2 9, avengerBase][id]?
  sampler := .first

/-- The first emo of two attacks twice, and the other one attacks in between. -/
theorem march_in_turn_turnsEnv :
    ∃ config between last : Config Task (St turnsEnv),
      Reaches (perform turnsEnv) config between ∧ Reaches (perform turnsEnv) between last ∧
        aboutToAttack? config = some (.zero, 0) ∧ aboutToAttack? between = some (.zero, 1) ∧
        aboutToAttack? last = some (.zero, 0) := by
  let board0 : List BattleEmo :=
    [.newWithBase 0 (duelistBase 2 9) false, .newWithBase 1 (duelistBase 2 9) false]
  let board1 : List BattleEmo := [.newWithBase 2 (duelistBase 2 9) false]
  let again (last : Config Task (St turnsEnv)) : Bool :=
    aboutToAttack? last = some (.zero, 0) ∧ last.state.boards.attackCounts .zero ≠ [0, 0] ∧
      Together last.state.boards .zero [0, 1] ∧ [0, 1].Sublist (last.state.boards.ids .zero)
  obtain ⟨config, reached, met⟩ := @exists_guarded_of_advanceWhile _ _ _ (perform turnsEnv)
    KeepsTurns _ 4 (marchStart turnsEnv board0 board1 0 3)
    (fun config => aboutToAttack? config = some (.zero, 0) ∧
      config.state.boards.attackCounts .zero = [0, 0] ∧
      (advanceWhile (perform turnsEnv) (InRound .zero [0, 1]) 24 config).any again)
    (by decide +kernel)
  obtain ⟨about, early, met⟩ := of_decide_eq_true met
  obtain ⟨last, round, met⟩ := exists_guarded_of_advanceWhile 24 met
  obtain ⟨repeated, late, together, order⟩ := of_decide_eq_true met
  have some : Relation.TransGen (fun before after => Step (perform turnsEnv) before after ∧
      InRound .zero [0, 1] before) config last := by
    rcases Relation.reflTransGen_iff_eq_or_transGen.mp round with rfl | some
    · exact absurd early late
    · exact some
  obtain ⟨between, before, after, attacks⟩ :=
    ((march_in_turn (by decide)).2 config reached).2 .zero 0 1 last some together order about
      repeated
  exact ⟨config, between, last, before.reaches, GuardedReaches.reaches after, about, attacks, repeated⟩

/-- The second emo of three attacks the avenger, which takes the first one with it:
the attack counts for the third. -/
theorem march_out_of_turn :
    (∀ emo ∈ [BattleEmo.newWithBase 0 (duelistBase 0 3) false, .newWithBase 1 (duelistBase 0 3) false,
      .newWithBase 2 (duelistBase 0 3) false, .newWithBase 3 (duelistBase 1 1) false,
      .newWithBase 4 avengerBase false], emo.attackAndSurvivedCount = 0) ∧
      ∃ last, Reaches (perform turnsEnv)
        (marchStart turnsEnv
          [.newWithBase 0 (duelistBase 0 3) false, .newWithBase 1 (duelistBase 0 3) false,
            .newWithBase 2 (duelistBase 0 3) false]
          [.newWithBase 3 (duelistBase 1 1) false, .newWithBase 4 avengerBase false] 0 5) last ∧
        decide (¬ Staircase (last.state.boards.attackCounts .zero)) :=
  ⟨by decide, exists_reached_of_advance 30 (by decide +kernel)⟩

end EmojiBattler.Mtc.Battle
