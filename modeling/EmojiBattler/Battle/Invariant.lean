import EmojiBattler.Library.Numbering
import EmojiBattler.Battle.Snapshots
import EmojiBattler.Battle.Changes

/-! # The invariant of the battle boards

The boards stay small, the emos on them alive and apart, and no emo counts
more attacks than there were. -/

namespace EmojiBattler.Mtc.Battle

open EmojiBattler.Emo CallMachine Numbering

variable {env : Env}

/-! ## Sound boards -/

/-- How many ids the generator returns before it repeats one. -/
def idCount : Nat := 65536

/-- An emo whose id was generated since the generator stood at `first`, after
`attacks` attacks. -/
structure SoundEmo (first attacks generatedIds : Nat) (emo : BattleEmo) : Prop where
  health : 1 ≤ emo.attributes.health
  abilities : emo.attributes.abilities.length ≤ u8Max
  count : emo.attackAndSurvivedCount ≤ attacks
  issued : Issued idCount first generatedIds emo.id

theorem SoundEmo.mono {first attacks later generatedIds laterIds : Nat} {emo : BattleEmo}
    (sound : SoundEmo first attacks generatedIds emo) (le : attacks ≤ later)
    (idsLe : generatedIds ≤ laterIds) : SoundEmo first later laterIds emo :=
  ⟨sound.health, sound.abilities, Nat.le_trans sound.count le, sound.issued.mono idsLe⟩

/-- The ids of both boards. -/
def BattleBoards.allIds (boards : BattleBoards) : List Nat := boards.ids .zero ++ boards.ids .one

structure Sound (first attacks : Nat) (state : St env) : Prop where
  capacity : WithinCapacity state.boards
  distinct : state.boards.allIds.Nodup
  emos : ∀ playerIndex, ∀ emo ∈ state.getBoard playerIndex,
    SoundEmo first attacks state.generatedIds emo

/-- The bases that new emos are built from. -/
def SoundBases (bases : Bases) : Prop :=
  ∀ id base, bases id = some base → 1 ≤ base.health ∧ base.abilities.length ≤ u8Max

variable {first attacks : Nat}

theorem Sound.mono {state : St env} {later : Nat} (sound : Sound first attacks state)
    (le : attacks ≤ later) : Sound first later state :=
  ⟨sound.capacity, sound.distinct, fun playerIndex emo member =>
    (sound.emos playerIndex emo member).mono le (Nat.le_refl _)⟩

theorem Sound.issued {state : St env} (sound : Sound first attacks state) {id : Nat}
    (member : id ∈ state.boards.allIds) : Issued idCount first state.generatedIds id := by
  rcases List.mem_append.mp member with member | member <;>
    obtain ⟨emo, present, rfl⟩ := List.mem_map.mp member <;>
    exact (sound.emos _ emo present).issued

/-! ## Changes keep boards sound -/

theorem BattleBoards.allIds_insertIdx {boards : BattleBoards} {playerIndex : PlayerIndex}
    {position : Nat} (emo : BattleEmo) (bound : position ≤ (boards.getBoard playerIndex).length) :
    (boards.setBoard playerIndex
      ((boards.getBoard playerIndex).insertIdx position emo)).allIds.Perm
        (emo.id :: boards.allIds) := by
  have inserted := (List.perm_insertIdx emo _ bound).map BattleEmo.id
  cases playerIndex with
  | zero => exact inserted.append_right _
  | one => exact (inserted.append_left _).trans List.perm_middle

/-- The id of a new emo is none of those on the boards. -/
theorem BattleBoards.nodup_allIds_insertIdx {boards : BattleBoards} {playerIndex : PlayerIndex}
    {position generatedIds : Nat} {emo : BattleEmo} (distinct : boards.allIds.Nodup)
    (issued : ∀ id ∈ boards.allIds, Issued idCount first generatedIds id)
    (bound : position ≤ (boards.getBoard playerIndex).length)
    (generated : emo.id = generateBattleEmoId generatedIds)
    (few : generatedIds + 1 ≤ first + idCount) :
    (boards.setBoard playerIndex
      ((boards.getBoard playerIndex).insertIdx position emo)).allIds.Nodup := by
  refine (allIds_insertIdx emo bound).nodup_iff.mpr (List.nodup_cons.mpr ⟨fun old => ?_, distinct⟩)
  exact (issued _ old).ne_next few generated.symm

theorem BattleBoards.allIds_eraseIdx (boards : BattleBoards) (playerIndex : PlayerIndex)
    (position : Nat) :
    (boards.setBoard playerIndex
      ((boards.getBoard playerIndex).eraseIdx position)).allIds.Sublist boards.allIds := by
  have erased := (List.eraseIdx_sublist (boards.getBoard playerIndex) position).map BattleEmo.id
  cases playerIndex with
  | zero => exact erased.append (.refl _)
  | one => exact (List.Sublist.refl _).append erased

theorem BattleBoards.allIds_setEmo {boards : BattleBoards} {playerIndex : PlayerIndex}
    {emoIndex : Nat} {emo changed : BattleEmo}
    (found : (boards.getBoard playerIndex)[emoIndex]? = some emo) (same : changed.id = emo.id) :
    (boards.setEmo playerIndex emoIndex changed).allIds = boards.allIds := by
  have kept : ((boards.getBoard playerIndex).set emoIndex changed).map BattleEmo.id =
      (boards.getBoard playerIndex).map BattleEmo.id := by
    obtain ⟨bound, rfl⟩ := List.getElem?_eq_some_iff.mp found
    rw [List.map_set, same, ← List.map_set, List.set_getElem_self]
  cases playerIndex with
  | zero => exact congrArg (· ++ _) kept
  | one => exact congrArg (_ ++ ·) kept

/-- An emo of changed boards is the changed one or an old one. -/
theorem BattleBoards.mem_setBoard {boards : BattleBoards} {playerIndex other : PlayerIndex}
    {board : List BattleEmo} {emo : BattleEmo}
    (member : emo ∈ (boards.setBoard playerIndex board).getBoard other) :
    emo ∈ board ∨ emo ∈ boards.getBoard other := by
  by_cases same : other = playerIndex
  · subst same
    rw [getBoard_setBoard] at member
    exact .inl member
  · rw [getBoard_setBoard_of_ne same] at member
    exact .inr member

theorem WithinCapacity.setBoard {boards : BattleBoards} (capacity : WithinCapacity boards)
    (playerIndex : PlayerIndex) {board : List BattleEmo}
    (bound : board.length ≤ boardEmoMaxCount) :
    WithinCapacity (boards.setBoard playerIndex board) := by
  intro other
  by_cases same : other = playerIndex
  · subst same
    rwa [BattleBoards.getBoard_setBoard]
  · rw [BattleBoards.getBoard_setBoard_of_ne same]
    exact capacity other

/-- An assignment to one emo. -/
theorem Sound.setEmo {state changedState : St env} {playerIndex : PlayerIndex} {emoIndex : Nat}
    {emo changed : BattleEmo} {later : Nat} (sound : Sound first attacks state)
    (le : attacks ≤ later) (found : (state.getBoard playerIndex)[emoIndex]? = some emo)
    (same : changed.id = emo.id)
    (kept : SoundEmo first attacks state.generatedIds emo →
      SoundEmo first later state.generatedIds changed)
    (boards : changedState.boards = state.boards.setEmo playerIndex emoIndex changed)
    (generatedIds : changedState.generatedIds = state.generatedIds) :
    Sound first later changedState := by
  constructor
  · rw [boards]
    refine sound.capacity.setBoard playerIndex ?_
    rw [List.length_set]
    exact sound.capacity playerIndex
  · rw [boards, BattleBoards.allIds_setEmo found same]
    exact sound.distinct
  · intro other candidate member
    rw [BattleState.getBoard, boards] at member
    rw [generatedIds]
    rcases BattleBoards.mem_setBoard member with onBoard | old
    · rcases List.mem_or_eq_of_mem_set onBoard with old | rfl
      · exact (sound.emos playerIndex candidate old).mono le (Nat.le_refl _)
      · exact kept (sound.emos playerIndex emo (List.mem_of_getElem? found))
    · exact (sound.emos other candidate old).mono le (Nat.le_refl _)

theorem Write.sound {added : Option Ability.Battle} {before after : St env}
    (write : Write env added before after) (sound : Sound first attacks before) :
    Sound first attacks after := by
  cases write with
  | rng => exact ⟨sound.capacity, sound.distinct, sound.emos⟩
  | attack =>
      exact ⟨by simpa using sound.capacity, by simpa using sound.distinct,
        by simpa using sound.emos⟩
  | increase found attack health calculatedAttack calculatedHealth alive =>
      refine sound.setEmo (Nat.le_refl _) found ?_ (fun emo => ?_)
        (BattleState.addLog_boards ..) (BattleState.addLog_generatedIds ..)
      · rfl
      · exact ⟨alive emo.health, emo.abilities, emo.count, emo.issued⟩
  | decrease found attack health calculatedAttack calculatedHealth alive =>
      refine sound.setEmo (Nat.le_refl _) found ?_ (fun emo => ?_)
        (BattleState.addLog_boards ..) (BattleState.addLog_generatedIds ..)
      · rfl
      · exact ⟨alive, emo.abilities, emo.count, emo.issued⟩
  | ability found adds few =>
      refine sound.setEmo (Nat.le_refl _) found ?_ (fun emo => ?_)
        (BattleState.addLog_boards ..) (BattleState.addLog_generatedIds ..)
      · rfl
      · refine ⟨emo.health, ?_, emo.count, emo.issued⟩
        rw [List.length_append, List.length_singleton]
        exact few
  | shield found listed =>
      refine sound.setEmo (Nat.le_refl _) found ?_ (fun emo => ?_)
        (BattleState.addLog_boards ..) (BattleState.addLog_generatedIds ..)
      · rfl
      · exact ⟨emo.health, Nat.le_trans (List.length_eraseIdx_le _ _) emo.abilities, emo.count,
          emo.issued⟩
  | damage found damage alive =>
      refine sound.setEmo (Nat.le_refl _) found ?_ (fun emo => ?_) rfl
        (BattleState.addLog_generatedIds ..)
      · rfl
      · exact ⟨alive, emo.abilities, emo.count, emo.issued⟩

theorem buildEmoAttributes_health {base : Base} (alive : 1 ≤ base.health) (isTriple : Bool) :
    1 ≤ (buildEmoAttributes base isTriple).health := by
  unfold buildEmoAttributes saturatingMulU16 u16Max
  cases isTriple <;> simp <;> omega

theorem Change.generatedIds_le {task : Task} {before after : St env}
    (change : Change env task before after) : before.generatedIds ≤ after.generatedIds := by
  cases change with
  | write write => exact write.update.generatedIds.ge
  | noRoom => exact Nat.le_succ _
  | insert => simp
  | retire => simp
  | count => exact Nat.le_refl _

/-- Every change but that of the attack count leaves the bound of the counts. -/
theorem Change.sound {task : Task} {before after : St env} {later : Nat}
    (change : Change env task before after) (bases : SoundBases env.emoBases)
    (sound : Sound first attacks before) (le : attacks ≤ later)
    (counting : ∀ playerIndex emoIndex emoId,
      task = .countAttackAndSurvived playerIndex emoIndex emoId → attacks < later)
    (carried : ∀ count, task.Carries count → count ≤ attacks)
    (start : first ≤ before.generatedIds) (few : after.generatedIds ≤ first + idCount) :
    Sound first later after := by
  cases change with
  | write write => exact (write.sound sound).mono le
  | noRoom =>
      exact ⟨sound.capacity, sound.distinct, fun playerIndex emo member =>
        (sound.emos playerIndex emo member).mono le (Nat.le_succ _)⟩
  | @insert playerIndex position id count base found isTriple room bound counted =>
      simp only [BattleState.addLog_generatedIds] at few
      obtain ⟨health, abilities⟩ := bases id base found
      have small : count ≤ attacks := by
        rcases counted with rfl | ⟨other, emo, member, rfl⟩ | carries
        · exact Nat.zero_le _
        · exact (sound.emos other emo member).count
        · exact carried count carries
      constructor
      · refine sound.capacity.setBoard playerIndex ?_
        rw [List.length_insertIdx_of_le_length bound]
        exact room
      · exact BattleBoards.nodup_allIds_insertIdx sound.distinct (fun _ => sound.issued) bound rfl
          few
      · intro other emo member
        simp only [BattleState.addLog_generatedIds]
        rcases BattleBoards.mem_setBoard member with onBoard | old
        · rcases List.eq_or_mem_of_mem_insertIdx onBoard with rfl | old
          · exact ⟨buildEmoAttributes_health health isTriple, abilities,
              Nat.le_trans small le, .next start⟩
          · exact (sound.emos playerIndex emo old).mono le (Nat.le_succ _)
        · exact (sound.emos other emo old).mono le (Nat.le_succ _)
  | @retire playerIndex emoIndex emo found damage =>
      constructor
      · rw [BattleState.addLog_boards]
        exact sound.capacity.setBoard playerIndex
          (Nat.le_trans (List.length_eraseIdx_le _ _) (sound.capacity playerIndex))
      · rw [BattleState.addLog_boards]
        exact sound.distinct.sublist (BattleBoards.allIds_eraseIdx _ _ _)
      · intro other candidate member
        rw [BattleState.getBoard, BattleState.addLog_boards] at member
        simp only [BattleState.addLog_generatedIds]
        rcases BattleBoards.mem_setBoard member with onBoard | old
        · exact (sound.emos playerIndex candidate (List.mem_of_mem_eraseIdx onBoard)).mono le
            (Nat.le_refl _)
        · exact (sound.emos other candidate old).mono le (Nat.le_refl _)
  | @count playerIndex emoIndex emoId emo counts found =>
      have lt := counting _ _ _ counts
      refine sound.setEmo le found ?_ (fun emo => ?_) rfl rfl
      · rfl
      · exact ⟨emo.health, emo.abilities, Nat.lt_of_le_of_lt emo.count lt, emo.issued⟩

/-! ## The attack counts of the calls -/

theorem Known.counted {task : Task} {boards : BattleBoards} {emo : BattleEmo}
    (known : Known task boards emo) : Counted task boards emo.attackAndSurvivedCount := by
  rcases known with ⟨playerIndex, member⟩ | retired
  · exact .inr (.inl ⟨playerIndex, emo, member, rfl⟩)
  · exact .inr (.inr (.inl ⟨emo, retired, rfl⟩))

theorem Acted.counted {task call : Task} {playerIndex : PlayerIndex}
    {action : Ability.Battle.NormalAction} {actionEmoIndex : Nat}
    {retiredActionEmoOpt : Option BattleEmo} {state after : St env} {calls : List Task}
    {side : Ability.Side} {baseId divisor count : Nat}
    (acted : Acted env playerIndex action actionEmoIndex retiredActionEmoOpt state calls after)
    (sets : action = .setEmosByAttackDiv side baseId divisor)
    (retired : ∀ emo, retiredActionEmoOpt = some emo → task.retiredEmo? = some emo)
    (member : call ∈ calls) (carries : call.Carries count) :
    Counted task state.boards count := by
  subst sets
  cases acted with
  | set sets => cases sets
  | callsSet _ found made _ =>
      rw [made call member] at carries
      rcases carries with ⟨_, none, _⟩ | ⟨_, _, _, _, _, same⟩
      · cases none
      · cases same
        exact getActionEmo_counted retired found
  | callsDamage made _ =>
      obtain ⟨_, _, _, rfl⟩ := made call member
      rcases carries with ⟨_, none, _⟩ | ⟨_, _, _, _, _, same⟩
      · cases none
      · cases same
  | writes _ none =>
      rw [none] at member
      cases member

/-- The attack counts of the calls of a task are those that it can see. -/
theorem perform_counted {task call : Task} {state after : St env} {calls : List Task}
    {count : Nat} (performed : perform env task state = .ok (calls, after))
    (member : call ∈ calls) (carries : call.Carries count) :
    Counted task state.boards count := by
  have origin := (perform_performs performed).origin call member
  have of_retired {retired : Option BattleEmo} (from_known : ∀ emo, retired = some emo →
      Known task state.boards emo) (same : ∃ emo, retired = some emo ∧
        emo.attackAndSurvivedCount = count) : Counted task state.boards count := by
    obtain ⟨emo, found, rfl⟩ := same
    exact (from_known emo found).counted
  cases origin with
  | asAlly _ _ retired | retire _ _ _ retired =>
      rcases carries with carries | ⟨_, _, _, _, _, same⟩
      · exact of_retired retired carries
      · cases same
  | retireBoard known | retireRival known =>
      rcases carries with ⟨emo, same, rfl⟩ | ⟨_, _, _, _, _, same⟩
      · cases same
        exact known.counted
      · cases same
  | setEmo acts =>
      obtain ⟨_, _, act⟩ := Task.exists_act acts
      rcases act_cases act performed with ⟨_, rfl, _⟩ | ⟨_, performed⟩
      · cases member
      · exact (callAbilityNormalAction_acted performed).counted rfl (fun _ same => same) member
          carries
  | _ =>
      rcases carries with ⟨_, none, _⟩ | ⟨_, _, _, _, _, same⟩
      · cases none
      · cases same

/-! ## The phases of a march -/

/-- A task that is neither part of an attack nor of the march. -/
def Task.isPlain : Task → Bool
  | .attackDamageCounter .. | .countAttackAndSurvived .. => false
  | task => task.isCascade

theorem Origin.isPlain {task call : Task} {before after : St env}
    (origin : Origin env task before after call) (plain : task.isPlain) : call.isPlain := by
  cases origin with
  | attackDamage attacks | counter attacks | count attacks | marchAttack attacks
  | marchNext attacks =>
      rw [attacks] at plain
      cases plain
  | marchLoop marches =>
      rcases marches with marches | ⟨_, marches⟩ <;> rw [marches] at plain <;> cases plain
  | _ => rfl

/-- Damage calls nothing that belongs to an attack. -/
theorem damageEmo_calls {damage : Nat} {playerIndex : PlayerIndex} {emoIndex : Nat}
    {survived : Bool} {calls : List Task} {state after : St env}
    (damaged : damageEmo env damage playerIndex emoIndex state = .ok (survived, calls, after)) :
    ∀ call ∈ calls, call.isPlain :=
  fun call member =>
    ((damageEmo_cases damaged).2.2 (.damageAllEmosOf .zero 0 0) call member).isPlain rfl

/-- The calls of a task of an attack: plain ones and at most one other. -/
theorem perform_attackCalls {task : Task} {state after : St env} {calls : List Task}
    (attacks : task.isMarch = false) (performed : perform env task state = .ok (calls, after)) :
    ∃ plain, (∀ call ∈ plain, call.isPlain) ∧
      (calls = plain ∨ ∃ last, last.isMarch = false ∧ calls = plain ++ [last]) := by
  have origin := (perform_performs performed).origin
  cases task with
  | attack =>
      obtain ⟨_, _, _, _, _, _, rfl, _⟩ := attack_cases performed
      exact ⟨[], List.forall_mem_nil _, .inr ⟨_, rfl, rfl⟩⟩
  | attackDamage =>
      obtain ⟨_, _, _, made, _, _, damaged, rfl⟩ := attackDamage_cases performed
      exact ⟨made, damageEmo_calls damaged, .inr ⟨_, rfl, rfl⟩⟩
  | attackDamageCounter =>
      rcases attackDamageCounter_cases performed with
        ⟨_, rfl, _⟩ | ⟨survived, made, _, damaged, rfl⟩
      · exact ⟨[], List.forall_mem_nil _, .inl rfl⟩
      · refine ⟨made, damageEmo_calls damaged, ?_⟩
        cases survived with
        | true => exact .inr ⟨_, rfl, rfl⟩
        | false => exact .inl (List.append_nil made)
  | countAttackAndSurvived =>
      obtain ⟨_, _, rfl, _⟩ := countAttackAndSurvived_cases performed
      exact ⟨[], List.forall_mem_nil _, .inl rfl⟩
  | marchBegin | marchLoop | marchNext => cases attacks
  | _ => exact ⟨calls, fun call member => (origin call member).isPlain rfl, .inl rfl⟩

/-- The waiting tasks of a march after so many attacks. -/
inductive Phase (attacks : Nat) : List Task → Prop
  | pre {calls : List Task} {firstAttackPlayerIndex : PlayerIndex}
      (plain : ∀ call ∈ calls, call.isPlain) (none : attacks = 0) :
      Phase attacks (calls ++ [.marchBegin (Tick.new firstAttackPlayerIndex)])
  | ready {tick : Tick} (num : tick.num = attacks + 1) (bound : tick.num ≤ u8Max) :
      Phase attacks [.marchLoop tick]
  | attacking {calls : List Task} {last : Task} {tick : Tick}
      (plain : ∀ call ∈ calls, call.isPlain) (part : last.isMarch = false)
      (num : tick.num = attacks + 1) (bound : tick.num ≤ u8Max) :
      Phase attacks (calls ++ [last, .marchNext tick])
  | attacked {tick : Tick} (num : tick.num = attacks) (bound : tick.num ≤ u8Max) :
      Phase attacks [.marchNext tick]
  | finished (bound : attacks ≤ u8Max) : Phase attacks []

theorem Phase.attacks_le {attacks : Nat} {stack : List Task} (phase : Phase attacks stack) :
    attacks ≤ u8Max := by
  cases phase with
  | pre _ none => omega
  | ready | attacking | attacked => omega
  | finished bound => exact bound

/-- An attack is completed when only the rest of the march waits. -/
def completedAttacks : List Task → Nat
  | [.marchNext _] => 1
  | _ => 0

theorem completedAttacks_of_two {stack : List Task} (several : 2 ≤ stack.length) :
    completedAttacks stack = 0 := by
  match stack with
  | [] | [_] => cases several <;> contradiction
  | _ :: _ :: _ => simp [completedAttacks]

theorem Phase.step {task : Task} {rest calls : List Task} {state after : St env}
    (phase : Phase attacks (task :: rest))
    (performed : perform env task state = .ok (calls, after)) :
    Phase (attacks + completedAttacks (calls ++ rest)) (calls ++ rest) := by
  have origin := (perform_performs performed).origin
  generalize whole : task :: rest = stack at phase
  cases phase with
  | @pre waiting player plain none =>
      cases waiting with
      | nil =>
          cases whole
          subst none
          obtain ⟨_, ⟨_, _, rfl⟩ | rfl⟩ := marchBegin_cases performed
          · exact .finished (Nat.zero_le _)
          · exact .ready rfl (Nat.le_add_left 1 254)
      | cons head tail =>
          cases whole
          have kept : ∀ call ∈ calls ++ tail, call.isPlain := by
            intro call member
            rcases List.mem_append.mp member with new | old
            · exact (origin call new).isPlain (plain _ List.mem_cons_self)
            · exact plain call (List.mem_cons_of_mem _ old)
          have unfinished : completedAttacks ((calls ++ tail) ++ [.marchBegin (Tick.new player)]) =
              0 := by
            cases calls ++ tail with
            | nil => rfl
            | cons => exact completedAttacks_of_two (by simp)
          change Phase (attacks + completedAttacks (calls ++ (tail ++ _))) (calls ++ (tail ++ _))
          rw [← List.append_assoc, unfinished]
          exact .pre kept none
  | @ready tick num bound =>
      cases whole
      cases performed
      exact @Phase.attacking _ [] _ _ (List.forall_mem_nil _) rfl num bound
  | @attacking waiting last tick plain part num bound =>
      cases waiting with
      | nil =>
          cases whole
          obtain ⟨made, plain, rfl | ⟨next, part, rfl⟩⟩ := perform_attackCalls part performed
          · rcases List.eq_nil_or_concat calls with rfl | ⟨waiting, next, rfl⟩
            · exact .attacked num bound
            · rw [List.concat_eq_append] at plain ⊢
              rw [List.append_assoc, completedAttacks_of_two (by simp)]
              have isPlain := plain next (by simp)
              exact .attacking (fun call member => plain call (by simp [member]))
                (by cases next <;> first | rfl | cases isPlain) num bound
          · rw [List.append_assoc, completedAttacks_of_two (by simp)]
            exact .attacking plain part num bound
      | cons head tail =>
          cases whole
          change Phase (attacks + completedAttacks (calls ++ (tail ++ _))) (calls ++ (tail ++ _))
          rw [← List.append_assoc, completedAttacks_of_two (by simp; omega)]
          refine .attacking (fun call member => ?_) part num bound
          rcases List.mem_append.mp member with new | old
          · exact (origin call new).isPlain (plain _ List.mem_cons_self)
          · exact plain call (List.mem_cons_of_mem _ old)
  | @attacked tick num bound =>
      cases whole
      obtain ⟨_, ⟨_, _, rfl⟩ | ⟨room, rfl⟩⟩ := marchNext_cases performed
      · exact .finished (num ▸ bound)
      · exact .ready (congrArg (· + 1) num) room
  | finished => cases whole

/-- Below a part of an attack waits nothing but the march. -/
theorem Phase.part_last {task : Task} {rest : List Task} (phase : Phase attacks (task :: rest))
    (part : task.isMarch = false) (other : task.isPlain = false) :
    attacks + 1 ≤ u8Max ∧ ∃ tick, rest = [.marchNext tick] := by
  generalize whole : task :: rest = stack at phase
  cases phase with
  | @pre waiting player plain none =>
      cases waiting with
      | nil =>
          cases whole
          cases part
      | cons head tail =>
          cases whole
          cases (plain _ List.mem_cons_self).symm.trans other
  | @attacking waiting last tick plain isPart num bound =>
      cases waiting with
      | nil =>
          cases whole
          exact ⟨num ▸ bound, tick, rfl⟩
      | cons head tail =>
          cases whole
          cases (plain _ List.mem_cons_self).symm.trans other
  | ready | attacked =>
      cases whole
      cases part
  | finished => cases whole

theorem phase_marchStart {battleEmos0 battleEmos1 : List BattleEmo} {seed generatedIds : Nat} :
    Phase 0 (marchStart env battleEmos0 battleEmos1 seed generatedIds).stack := by
  refine .pre (fun call member => ?_) rfl
  rcases List.mem_pair.mp member with rfl | rfl <;> rfl

/-- A march is always in one of its phases. -/
theorem Phase.reaches {battleEmos0 battleEmos1 : List BattleEmo} {seed generatedIds : Nat}
    {config : Config Task (St env)}
    (reached : Reaches (perform env) (marchStart env battleEmos0 battleEmos1 seed generatedIds)
      config) : ∃ attacks, Phase attacks config.stack :=
  Reaches.invariant (P := fun config => ∃ attacks, Phase attacks config.stack)
    (fun phase performed =>
      let ⟨_, phase⟩ := phase
      ⟨_, phase.step performed⟩)
    reached ⟨0, phase_marchStart⟩

/-! ## Runs and their attacks -/

/-- A run and the number of the attacks that it has completed. -/
inductive AttackRun (env : Env) (start : Config Task (St env)) :
    Nat → Config Task (St env) → Prop
  | start : AttackRun env start 0 start
  | step {attacks : Nat} {before after : Config Task (St env)}
      (run : AttackRun env start attacks before) (step : Step (perform env) before after) :
      AttackRun env start (attacks + completedAttacks after.stack) after

/-- Every configuration of a march has an attack run. -/
theorem AttackRun.of_reaches {start last : Config Task (St env)}
    (reached : Reaches (perform env) start last) : ∃ attacks, AttackRun env start attacks last := by
  induction reached with
  | refl => exact ⟨0, .start⟩
  | tail _ step ih =>
      obtain ⟨attacks, run⟩ := ih
      exact ⟨_, run.step step⟩

/-- What a march keeps after so many attacks. -/
structure SoundMarch (first attacks : Nat) (config : Config Task (St env)) : Prop where
  phase : Phase attacks config.stack
  start : first ≤ config.state.generatedIds
  sound : config.state.generatedIds ≤ first + idCount → Sound first attacks config.state
  carried : config.state.generatedIds ≤ first + idCount →
    ∀ task ∈ config.stack, ∀ count, task.Carries count → count ≤ attacks

/-- The changes of a task lead through sound states. -/
abbrev SoundChanges (first attacks : Nat) (task : Task) : St env → St env → Prop :=
  Relation.ReflTransGen fun before after =>
    Change env task before after ∧ Sound first attacks after

theorem Changes.generatedIds_le {task : Task} {before after : St env}
    (changes : Changes env task before after) : before.generatedIds ≤ after.generatedIds := by
  induction changes with
  | refl => exact Nat.le_refl _
  | tail _ change ih => exact Nat.le_trans ih change.generatedIds_le

theorem Changes.sound {task : Task} {before after : St env} (changes : Changes env task before after)
    (bases : SoundBases env.emoBases) (sound : Sound first attacks before)
    (others : ∀ playerIndex emoIndex emoId,
      task ≠ .countAttackAndSurvived playerIndex emoIndex emoId)
    (carried : ∀ count, task.Carries count → count ≤ attacks)
    (start : first ≤ before.generatedIds) (few : after.generatedIds ≤ first + idCount) :
    SoundChanges first attacks task before after ∧ Sound first attacks after := by
  induction changes with
  | refl => exact ⟨.refl, sound⟩
  | tail changes change ih =>
      obtain ⟨path, middle⟩ := ih (Nat.le_trans change.generatedIds_le few)
      have last := change.sound bases middle (Nat.le_refl _)
        (fun playerIndex emoIndex emoId same => absurd same (others playerIndex emoIndex emoId))
        carried (Nat.le_trans start (Changes.generatedIds_le changes)) few
      exact ⟨path.tail ⟨change, last⟩, last⟩

/-- A task of a sound march. -/
theorem SoundMarch.changes {task : Task} {rest calls : List Task} {state after : St env}
    (march : SoundMarch first attacks ⟨task :: rest, state⟩) (bases : SoundBases env.emoBases)
    (performed : perform env task state = .ok (calls, after))
    (few : after.generatedIds ≤ first + idCount) :
    SoundChanges first (attacks + completedAttacks (calls ++ rest)) task state after ∧
      Sound first (attacks + completedAttacks (calls ++ rest)) after := by
  have changes := perform_changes performed
  have sound := march.sound (Nat.le_trans changes.generatedIds_le few)
  have carried := march.carried (Nat.le_trans changes.generatedIds_le few) task List.mem_cons_self
  by_cases counts : ∃ playerIndex emoIndex emoId,
      task = .countAttackAndSurvived playerIndex emoIndex emoId
  · obtain ⟨playerIndex, emoIndex, emoId, rfl⟩ := counts
    obtain ⟨_, tick, rfl⟩ := march.phase.part_last rfl rfl
    obtain ⟨emo, found, rfl, rfl⟩ := countAttackAndSurvived_cases performed
    have change : Change env (.countAttackAndSurvived playerIndex emoIndex emoId) state _ :=
      .count rfl found
    have last := change.sound bases sound (Nat.le_succ _) (fun _ _ _ _ => Nat.lt_succ_self _)
      carried march.start few
    exact ⟨.single ⟨change, last⟩, last⟩
  · have others : ∀ playerIndex emoIndex emoId,
        task ≠ .countAttackAndSurvived playerIndex emoIndex emoId :=
      fun playerIndex emoIndex emoId same => counts ⟨playerIndex, emoIndex, emoId, same⟩
    exact changes.sound bases (sound.mono (Nat.le_add_right _ _)) others
      (fun count carries => Nat.le_trans (carried count carries) (Nat.le_add_right _ _))
      march.start few

theorem SoundMarch.step {task : Task} {rest calls : List Task} {state after : St env}
    (march : SoundMarch first attacks ⟨task :: rest, state⟩) (bases : SoundBases env.emoBases)
    (performed : perform env task state = .ok (calls, after)) :
    SoundMarch first (attacks + completedAttacks (calls ++ rest)) ⟨calls ++ rest, after⟩ := by
  have le := (perform_changes performed).generatedIds_le
  refine ⟨march.phase.step performed, Nat.le_trans march.start le,
    fun few => (march.changes bases performed few).2, fun few call member count carries => ?_⟩
  have sound := march.sound (Nat.le_trans le few)
  have carried := march.carried (Nat.le_trans le few)
  refine Nat.le_trans ?_ (Nat.le_add_right _ _)
  rcases List.mem_append.mp member with new | old
  · rcases perform_counted performed new carries with rfl | ⟨playerIndex, emo, member, rfl⟩ | own
    · exact Nat.zero_le _
    · exact (sound.emos playerIndex emo member).count
    · exact carried task List.mem_cons_self count own
  · exact carried call (List.mem_cons_of_mem _ old) count carries

theorem SoundMarch.attackRun {start last : Config Task (St env)} (bases : SoundBases env.emoBases)
    (run : AttackRun env start attacks last) (initial : SoundMarch first 0 start) :
    SoundMarch first attacks last := by
  induction run with
  | start => exact initial
  | step _ step ih =>
      cases step with
      | call performed => exact ih.step bases performed

theorem soundMarch_marchStart {battleEmos0 battleEmos1 : List BattleEmo} {seed generatedIds : Nat}
    (start : first ≤ generatedIds)
    (initial : Sound first 0 (marchStart env battleEmos0 battleEmos1 seed generatedIds).state) :
    SoundMarch first 0 (marchStart env battleEmos0 battleEmos1 seed generatedIds) := by
  refine ⟨phase_marchStart, start, fun _ => initial, fun _ task member count carries => ?_⟩
  rcases carries with ⟨emo, retired, _⟩ | ⟨_, _, _, _, _, same⟩
  · rcases List.mem_append.mp member with pre | last
    · rcases List.mem_pair.mp pre with rfl | rfl <;> cases retired
    · rw [List.mem_singleton.mp last] at retired
      cases retired
  · rcases List.mem_append.mp member with pre | last
    · rcases List.mem_pair.mp pre with rfl | rfl <;> cases same
    · rw [List.mem_singleton.mp last] at same
      cases same

/-- At every point of a march the boards are sound: at most seven emos each,
all alive with at most 255 abilities, with different ids, and no emo counts
more attacks than were completed, at most 255.  So no count overflows. -/
theorem march_sound {battleEmos0 battleEmos1 : List BattleEmo} {seed generatedIds : Nat}
    {config : Config Task (St env)} (bases : SoundBases env.emoBases)
    (start : first ≤ generatedIds)
    (initial : Sound first 0 (marchStart env battleEmos0 battleEmos1 seed generatedIds).state)
    (run : AttackRun env (marchStart env battleEmos0 battleEmos1 seed generatedIds) attacks config)
    (few : config.state.generatedIds ≤ first + idCount) :
    Sound first attacks config.state ∧ attacks ≤ u8Max ∧
      (∀ playerIndex emoIndex emoId rest emo,
        config.stack = .countAttackAndSurvived playerIndex emoIndex emoId :: rest →
        config.state.boards.getEmo playerIndex emoIndex = .ok emo →
        emo.attackAndSurvivedCount + 1 ≤ u8Max) ∧
      ∀ task rest calls after, config.stack = task :: rest →
        perform env task config.state = .ok (calls, after) →
        after.generatedIds ≤ first + idCount →
        SoundChanges first (attacks + completedAttacks (calls ++ rest)) task config.state after := by
  have march := SoundMarch.attackRun bases run (soundMarch_marchStart start initial)
  have sound := march.sound few
  refine ⟨sound, march.phase.attacks_le, ?_, ?_⟩
  · intro playerIndex emoIndex emoId rest emo stack found
    have phase := march.phase
    rw [stack] at phase
    have small := (sound.emos playerIndex emo
      (List.mem_of_getElem? (BattleBoards.getEmo_eq_ok_iff.mp found))).count
    exact Nat.le_trans (Nat.succ_le_succ small) (phase.part_last rfl rfl).1
  · intro task rest calls after stack performed fewAfter
    obtain ⟨waiting, state⟩ := config
    subst stack
    exact (march.changes bases performed fewAfter).1

/-- Ten tasks into a march in which a retired emo sets another one. -/
theorem march_sound_successor :
    ∃ (env : Env) (battleEmos0 battleEmos1 : List BattleEmo) (attacks : Nat)
      (config : Config Task (St env)),
      AttackRun env (marchStart env battleEmos0 battleEmos1 0 2) attacks config ∧
      config.state.generatedIds = 3 ∧ Sound 0 attacks config.state ∧ attacks ≤ u8Max := by
  let successor : Base := ⟨0, .human, 1, 1, 1, []⟩
  let founder : Base := ⟨1, .human, 1, 1, 1,
    [.battle (.general (.asOneself .retire (.setEmo .ally 0)))]⟩
  let fighter : Base := ⟨2, .human, 1, 1, 5, []⟩
  let env : Env :=
    { emoBases := fun id =>
        if id = 0 then some successor else if id = 1 then some founder else some fighter
      sampler := .first }
  let battleEmos0 := [BattleEmo.newWithBase 0 founder false]
  let battleEmos1 := [BattleEmo.newWithBase 1 fighter false]
  have bases : SoundBases env.emoBases := by
    intro id base found
    have known : base = successor ∨ base = founder ∨ base = fighter := by
      simp only [env] at found
      split at found
      · exact .inl (Option.some.inj found).symm
      · split at found
        · exact .inr (.inl (Option.some.inj found).symm)
        · exact .inr (.inr (Option.some.inj found).symm)
    rcases known with rfl | rfl | rfl <;> decide
  have initial : Sound 0 0 (marchStart env battleEmos0 battleEmos1 0 2).state := by
    refine ⟨fun playerIndex => by cases playerIndex <;> decide, by decide, ?_⟩
    intro playerIndex emo member
    cases playerIndex with
    | zero =>
        rw [List.mem_singleton.mp member]
        exact ⟨by decide, by decide, by decide, 0, by decide, by decide, rfl⟩
    | one =>
        rw [List.mem_singleton.mp member]
        exact ⟨by decide, by decide, by decide, 1, by decide, by decide, rfl⟩
  have reached : ∃ last, Reaches (perform env) (marchStart env battleEmos0 battleEmos1 0 2) last ∧
      decide (last.state.generatedIds = 3) :=
    exists_reached_of_advance 10 (by decide +kernel)
  obtain ⟨config, reached, generated⟩ := reached
  obtain ⟨attacks, run⟩ := AttackRun.of_reaches reached
  have generated : config.state.generatedIds = 3 := of_decide_eq_true generated
  obtain ⟨sound, bound, _⟩ := march_sound bases (Nat.zero_le 2) initial run
    (by rw [generated]; decide)
  exact ⟨env, battleEmos0, battleEmos1, attacks, config, run, generated, sound, bound⟩

end EmojiBattler.Mtc.Battle
