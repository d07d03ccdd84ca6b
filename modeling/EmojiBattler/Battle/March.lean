import EmojiBattler.Battle.Effects

/-! # The march

A battle from the pre abilities to an empty board. -/

namespace EmojiBattler.Mtc.Battle

open EmojiBattler.Emo CallMachine

variable (env : Env)

def getFirstAttackPlayerIndex (boards : BattleBoards) (rng : env.sampler.Rng) :
    PlayerIndex × env.sampler.Rng :=
  match compare (boards.countBoardEmos .zero) (boards.countBoardEmos .one) with
  | .gt => (.zero, rng)
  | .lt => (.one, rng)
  | .eq =>
      let (b, rng) := env.sampler.genBool rng
      (if b then .zero else .one, rng)

/-- The calls of `march` and the state that they start from. -/
def marchStart (battleEmos0 battleEmos1 : List BattleEmo) (seed generatedIds : Nat) :
    Config Task (St env) :=
  let boards := { board0 := battleEmos0, board1 := battleEmos1 }
  let (firstAttackPlayerIndex, rng) :=
    getFirstAttackPlayerIndex env boards (env.sampler.seedFromU64 seed)
  ⟨callPreAbilities firstAttackPlayerIndex ++ [.marchBegin (Tick.new firstAttackPlayerIndex)],
    { boards, logs := [], rng, generatedIds }⟩

/-- Returns the remaining grades of both boards, and the state with the logs
and the id generator. -/
def march (fuel : Nat) (battleEmos0 battleEmos1 : List BattleEmo) (seed generatedIds : Nat) :
    Fueled (Nat × Nat × St env) := do
  let start := marchStart env battleEmos0 battleEmos1 seed generatedIds
  let state ← ExceptT.mk (run (perform env) fuel start.stack start.state)
  let finished ← Fueled.of (getRemainingGradesIfFinished env state.boards)
  let (grades0, grades1) ← Fueled.of (okOr finished (.panicked "the march is not finished"))
  return (grades0, grades1, state)

variable {env}

/-! ## The end of a march -/

def Task.isMarch : Task → Bool
  | .marchBegin _ | .marchLoop _ | .marchNext _ => true
  | _ => false

/-- Below everything that is called waits the march itself, until a board is
empty. -/
def Marching (config : Config Task (St env)) : Prop :=
  (∃ tasks last, config.stack = tasks ++ [last] ∧ last.isMarch) ∨
    (config.stack = [] ∧
      ∃ grades, getRemainingGradesIfFinished env config.state.boards = .ok (some grades))

theorem Marching.step {task : Task} {rest calls : List Task} {state after : St env}
    (marching : Marching ⟨task :: rest, state⟩)
    (performed : perform env task state = .ok (calls, after)) :
    Marching ⟨calls ++ rest, after⟩ := by
  rcases marching with ⟨tasks, last, stack, isMarch⟩ | ⟨stack, _⟩
  · cases tasks with
    | cons head tail =>
        cases stack
        exact .inl ⟨calls ++ tail, last, by simp, isMarch⟩
    | nil =>
        cases stack
        rw [List.append_nil]
        cases task with
        | marchBegin tick =>
            obtain ⟨rfl, ⟨grades, remaining, rfl⟩ | rfl⟩ := marchBegin_cases performed
            · exact .inr ⟨rfl, grades, remaining⟩
            · exact .inl ⟨[], _, rfl, rfl⟩
        | marchLoop tick =>
            cases performed
            exact .inl ⟨[.attack tick.attackPlayerIndex], _, rfl, rfl⟩
        | marchNext tick =>
            obtain ⟨rfl, ⟨grades, remaining, rfl⟩ | ⟨_, rfl⟩⟩ := marchNext_cases performed
            · exact .inr ⟨rfl, grades, remaining⟩
            · exact .inl ⟨[], _, rfl, rfl⟩
        | _ => cases isMarch
  · cases stack

/-- A march that returns has emptied a board. -/
theorem finished_of_returns {battleEmos0 battleEmos1 : List BattleEmo}
    {seed generatedIds : Nat} {after : St env}
    (returned : Returns (perform env)
      (marchStart env battleEmos0 battleEmos1 seed generatedIds) after) :
    ∃ grades, getRemainingGradesIfFinished env after.boards = .ok (some grades) := by
  have marching := Reaches.invariant (P := Marching) Marching.step returned
    (.inl ⟨callPreAbilities _, _, rfl, rfl⟩)
  rcases marching with ⟨tasks, last, stack, _⟩ | ⟨_, finished⟩
  · simp at stack
  · exact finished

/-! ## Grades -/

/-- The grade of an emo's base. -/
def gradeOf (env : Env) (emo : BattleEmo) : Nat :=
  match env.emoBases emo.baseId with
  | some base => base.grade
  | none => 0

def gradeSum (env : Env) (board : List BattleEmo) : Nat := (board.map (gradeOf env)).sum

/-- The grades that emos can have. -/
def GradedBases (bases : Bases) : Prop :=
  ∀ id base, bases id = some base → 1 ≤ base.grade ∧ base.grade ≤ 6

theorem sumGrades_from {board : List BattleEmo} {start result : Nat}
    (graded : GradedBases env.emoBases) (small : start + 6 * board.length ≤ u8Max)
    (summed : board.foldlM (fun sum emo => do
      let base ← env.emoBases.find emo.baseId
      return saturatingAddU8 sum base.grade) start = .ok result) :
    result = start + gradeSum env board ∧ board.length ≤ gradeSum env board ∧
      gradeSum env board ≤ 6 * board.length := by
  induction board generalizing start with
  | nil =>
      cases summed
      simp [gradeSum]
  | cons emo rest ih =>
      simp only [List.foldlM_cons, Result.bind_eq_ok_iff, Emo.Bases.find_eq_ok_iff,
        Result.pure_eq_ok_iff] at summed
      obtain ⟨_, ⟨base, resolved, rfl⟩, summed⟩ := summed
      obtain ⟨low, high⟩ := graded _ _ resolved
      have length : (emo :: rest).length = rest.length + 1 := rfl
      have exact : saturatingAddU8 start base.grade = start + base.grade := by
        unfold saturatingAddU8
        omega
      rw [exact] at summed
      obtain ⟨total, lower, upper⟩ := ih (by omega) summed
      have split : gradeSum env (emo :: rest) = base.grade + gradeSum env rest := by
        simp [gradeSum, gradeOf, resolved]
      omega

/-- On boards within the capacity the sum of the grades does not saturate, and
it is zero for the empty board only. -/
theorem sumGrades_exact {board : List BattleEmo} {result : Nat}
    (graded : GradedBases env.emoBases) (capacity : board.length ≤ boardEmoMaxCount)
    (summed : sumGrades env board = .ok result) :
    result = gradeSum env board ∧ board.length ≤ gradeSum env board ∧
      gradeSum env board ≤ 42 := by
  have small : 6 * board.length ≤ 42 := by
    unfold boardEmoMaxCount at capacity
    omega
  obtain ⟨total, lower, upper⟩ := sumGrades_from graded (by unfold u8Max; omega) summed
  omega

/-! ## Capacity -/

/-- Both boards are within the capacity. -/
def WithinCapacity (boards : BattleBoards) : Prop :=
  ∀ playerIndex, (boards.getBoard playerIndex).length ≤ boardEmoMaxCount

theorem WithinCapacity.effect {added : Option Ability.Battle} {before after : St env}
    (capacity : WithinCapacity before.boards) (effect : Effect env added before after) :
    WithinCapacity after.boards := by
  intro other
  have within := capacity other
  cases effect with
  | update update => rwa [← (update.boards other).length_eq]
  | noRoom boards _ => rwa [boards]
  | @insertion player position emo inserted =>
      by_cases same : other = player
      · subst same
        rw [inserted.boards, BattleBoards.getBoard_setBoard,
          List.length_insertIdx_of_le_length inserted.bound]
        exact inserted.room
      · rwa [inserted.boards, BattleBoards.getBoard_setBoard_of_ne same]
  | @removal player position removed =>
      by_cases same : other = player
      · subst same
        rw [removed.boards, BattleBoards.getBoard_setBoard]
        exact Nat.le_trans (List.length_eraseIdx_le _ _) within
      · rwa [removed.boards, BattleBoards.getBoard_setBoard_of_ne same]

/-- No run leaves the capacity. -/
theorem WithinCapacity.reaches {start last : Config Task (St env)}
    (capacity : WithinCapacity start.state.boards) (reached : Reaches (perform env) start last) :
    WithinCapacity last.state.boards :=
  Reaches.state_invariant (P := fun state : St env => WithinCapacity state.boards)
    (fun within performed => within.effect (perform_performs performed).effect) reached capacity

/-! ## What a march returns -/

/-- The grades that a march returns are those of the emos left on its boards,
and one of the boards is empty. -/
theorem march_returns {fuel : Nat} {battleEmos0 battleEmos1 : List BattleEmo}
    {seed generatedIds grades0 grades1 : Nat} {state : St env}
    (graded : GradedBases env.emoBases) (capacity0 : battleEmos0.length ≤ boardEmoMaxCount)
    (capacity1 : battleEmos1.length ≤ boardEmoMaxCount)
    (marched : march env fuel battleEmos0 battleEmos1 seed generatedIds =
      pure (grades0, grades1, state)) :
    Returns (perform env) (marchStart env battleEmos0 battleEmos1 seed generatedIds) state ∧
      (state.getBoard .zero = [] ∨ state.getBoard .one = []) ∧
      grades0 = gradeSum env (state.getBoard .zero) ∧
      grades1 = gradeSum env (state.getBoard .one) ∧
      ∀ playerIndex, (state.getBoard playerIndex).length ≤
        gradeSum env (state.getBoard playerIndex) ∧
        gradeSum env (state.getBoard playerIndex) ≤ 42 := by
  simp only [march, Fueled.bind_eq_pure_iff, Fueled.of_eq_pure_iff, okOr_eq_ok_iff,
    Fueled.pure_eq_pure_iff] at marched
  obtain ⟨after, executed, finished, remaining, ⟨left, right⟩, rfl, same⟩ := marched
  cases same
  have returned := run_ok_returns executed
  have capacity : WithinCapacity state.boards := by
    refine WithinCapacity.reaches ?_ returned
    intro playerIndex
    cases playerIndex
    · exact capacity0
    · exact capacity1
  simp only [getRemainingGradesIfFinished] at remaining
  split at remaining
  · rename_i empty
    simp only [Result.bind_eq_ok_iff, Result.pure_eq_ok_iff, Option.some.injEq,
      Prod.mk.injEq] at remaining
    obtain ⟨_, summed0, _, summed1, rfl, rfl⟩ := remaining
    obtain ⟨total0, bounds0⟩ := sumGrades_exact graded (capacity _) summed0
    obtain ⟨total1, bounds1⟩ := sumGrades_exact graded (capacity _) summed1
    refine ⟨returned, by simpa [BattleBoards.isEmptyBoard] using empty, total0, total1,
      fun playerIndex => ?_⟩
    cases playerIndex
    · exact bounds0
    · exact bounds1
  · cases remaining

end EmojiBattler.Mtc.Battle
